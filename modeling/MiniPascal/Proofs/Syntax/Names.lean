import MiniPascal.Proofs.Syntax.Nodes
import MiniPascal.Proofs.Token.Reading
import MiniPascal.Resolution

/-!
# Declared names

A word that spells a keyword in any letter case is never an identifier. So no declaration of a
program that was read takes the name of a built-in type, and all types that it mentions are built
in.
-/
namespace MiniPascal

/-- A word that is no keyword does not spell one in any letter case. -/
theorem Kind.upper_ne_of_ofWord? {word : String} (h : ofWord? word = none) :
    ∀ k ∈ keywords, word.toList.map Char.toUpper ≠ k.text.toList := by
  have hascii : ∀ k ∈ keywords, 'ı' ∉ k.text.toList ∧ 'ſ' ∉ k.text.toList := by decide
  intro k hk hspelled
  obtain ⟨hi, hs⟩ := hascii k hk
  -- letters whose upper case leads into ASCII from outside do not occur in the word
  have hupper : ∀ c ∈ word.toList, Text.toUpper c = c.toUpper := by
    intro c hc
    have hmem : c.toUpper ∈ k.text.toList := by
      rw [← hspelled]
      exact List.mem_map_of_mem hc
    have hci : c.toNat ≠ 0x131 := by
      intro heq
      rw [← Char.ofNat_toNat c, heq] at hmem
      exact hi hmem
    have hcs : c.toNat ≠ 0x17F := by
      intro heq
      rw [← Char.ofNat_toNat c, heq] at hmem
      exact hs hmem
    rw [Text.toUpper, if_neg hci, if_neg hcs]
  apply List.find?_eq_none.mp h k hk
  rw [List.map_congr_left hupper, hspelled, String.ofList_toList, beq_self_eq_true]

namespace Cursor

theorem ofWord?_of_kindOfWord {word : String} (h : kindOfWord word = .identifier) :
    Kind.ofWord? word = none := by
  cases hword : Kind.ofWord? word with
  | none => rfl
  | some k =>
    have hmem : k ∈ Kind.keywords := List.mem_of_find?_eq_some hword
    rw [kindOfWord, hword, Option.getD_some] at h
    subst h
    exact absurd hmem (by decide)

theorem ofWord?_of_tokenAt? {b : UInt8} {rest : Bytes} {kind : Kind} {lexeme : Option String}
    {n : Nat} (h : tokenAt? b rest = some (kind, lexeme, n)) (hkind : kind = .identifier) :
    Kind.ofWord? (lexeme.getD "") = none := by
  cases tokenAt?_eq_some.mp h with
  | mark hmark =>
    subst hkind
    exact absurd (mem_of_markOfByte? hmark) (by decide)
  | assign | colon => cases hkind
  | word => exact ofWord?_of_kindOfWord hkind
  | number hmark hcolon hword hb hnumber =>
    subst hkind
    cases isLiteral_of_numberAt hnumber

theorem ofWord?_of_next {c c' : Cursor} {t : Token} (h : c.next = (.ok t, c'))
    (hkind : t.kind = .identifier) : Kind.ofWord? t.name = none := by
  have hreading := reading_next c
  rw [h] at hreading
  cases hreading with
  | token hgap hrest htoken =>
    rw [Token.name, if_pos hkind]
    exact ofWord?_of_tokenAt? htoken hkind
  | endOfFile => cases hkind

theorem ofWord?_of_mem_stream (c : Cursor) :
    ∀ t ∈ c.stream.tokens, t.kind = .identifier → Kind.ofWord? t.name = none := by
  fun_induction stream c with
  | case1 | case2 =>
    intro t ht
    cases ht
  | case3 c t c' hnext hk rest ih =>
    intro t' ht
    rcases List.mem_cons.mp ht with rfl | ht
    · exact ofWord?_of_next hnext
    · exact ih t' ht

end Cursor

def IsBuiltin (x : String) : Prop := x ∈ Resolver.builtins.map Symbol.name

theorem not_isBuiltin_of_ofWord? {x : String} (h : Kind.ofWord? x = none) : ¬ IsBuiltin x := by
  intro hx
  simp only [IsBuiltin, Resolver.builtins, List.map_cons, List.map_nil, List.mem_cons,
    List.not_mem_nil, or_false] at hx
  rcases hx with rfl | rfl
  · exact absurd h (by decide)
  · exact absurd h (by decide)

/-- Declared names are not those of built-in types, but types are. -/
def Node.Admissible : Node → Prop
  | .decl d => ¬ IsBuiltin d.name.name
  | .param p => ¬ IsBuiltin p.name.name
  | .type t => t.kind.isBasicType = true
  | _ => True

theorem Param.admissible {params : List Param}
    (h : ∀ node ∈ params.flatMap fun p => [Node.param p, Node.type p.type], node.Admissible) :
    ∀ p ∈ params, ¬ IsBuiltin p.name.name ∧ p.type.kind.isBasicType = true := by
  intro p hp
  have hnodes (node : Node) (hnode : node ∈ [Node.param p, Node.type p.type]) : node.Admissible :=
    h node (List.mem_flatMap.mpr ⟨p, hp, hnode⟩)
  rw [List.forall_mem_cons, List.forall_mem_singleton] at hnodes
  exact hnodes

theorem Decl.admissible {decls : List Decl} (h : ∀ node ∈ Decl.nodesAll decls, node.Admissible) :
    ∀ d ∈ decls, ¬ IsBuiltin d.name.name := by
  induction decls with
  | nil => exact List.forall_mem_nil _
  | cons d rest ih =>
    rw [Decl.nodesAll, List.forall_mem_append] at h
    have hd : Node.decl d ∈ d.nodes := by
      cases d <;> exact List.mem_cons_self
    exact List.forall_mem_cons.mpr ⟨h.1 _ hd, ih h.2⟩

theorem Program.admissible_nodes {file : String} {source : Bytes} {index : Nat} {p : Program}
    (h : Program.ofSource file source index = .ok p) : ∀ node ∈ p.nodes, node.Admissible := by
  have hname (t : Token)
      (ht : t ∈ (TokenStream.ofSource file source index).tokens ∧ t.kind = .identifier) :
      ¬ IsBuiltin t.name :=
    not_isBuiltin_of_ofWord? (Cursor.ofWord?_of_mem_stream _ t ht.1 ht.2)
  intro node hnode
  have hlexical := lexical_nodes h node hnode
  cases node with
  | decl d => exact hname d.name hlexical
  | param p => exact hname p.name hlexical
  | type t => exact hlexical
  | program | block | stmt | expr => trivial

end MiniPascal
