import MiniPascal.Proofs.Nesting
import MiniPascal.Proofs.Resolution.Visible
import MiniPascal.Resolution.Rendering

/-!
# What the tags of references tell

The tag of a reference shows the name of its variable, the level and the type. Nothing separates the
name from the level, and a name can end in digits, so the tag of `x` at level eleven is that of `x1`
at level one. Two tags in one body agree for this reason only: the names differ by digits with which
the level of the shorter name begins. A routine whose own scope has level ten or less sees no such
variables, and in its body a tag tells the variable.
-/
namespace MiniPascal

namespace Variable

variable {v w : Variable}

def tag (v : Variable) : String :=
  "<" ++ v.name ++ toString v.level ++ ":" ++ v.typeName ++ ">"

/-- The name of `w` is that of `v` with more digits, and with these digits the level of `v` begins:
what is left of it is the level of `w`. -/
structure Confusable (v w : Variable) : Prop where
  type : v.typeName = w.typeName
  digits : ∃ digits, digits ≠ "" ∧ w.name = v.name ++ digits ∧
    toString v.level = digits ++ toString w.level

def HasBasicType (v : Variable) : Prop :=
  v.typeName = Kind.integerWord.text ∨ v.typeName = Kind.realWord.text

theorem append_eq_append_cases {a b c d : String} (h : a ++ b = c ++ d) :
    a = c ∨ (∃ e, e ≠ "" ∧ c = a ++ e ∧ b = e ++ d) ∨ ∃ e, e ≠ "" ∧ a = c ++ e ∧ d = e ++ b := by
  by_cases hac : a = c
  · exact .inl hac
  · refine .inr ?_
    have hsplit : a.toList ++ b.toList = c.toList ++ d.toList := by
      rw [← String.toList_append, h, String.toList_append]
    -- the longer front is the shorter one with some text behind it
    have hfront {a b c d : String} {e : List Char} (hac : a ≠ c) (hc : c.toList = a.toList ++ e)
        (hb : b.toList = e ++ d.toList) : ∃ e, e ≠ "" ∧ c = a ++ e ∧ b = e ++ d := by
      have hc' : c = a ++ String.ofList e := by
        rw [← String.toList_inj, hc, String.toList_append, String.toList_ofList]
      refine ⟨String.ofList e, fun he => hac ?_, hc', ?_⟩
      · rw [hc', he, String.append_empty]
      · rw [← String.toList_inj, hb, String.toList_append, String.toList_ofList]
    rcases List.append_eq_append_iff.mp hsplit with ⟨e, hc, hb⟩ | ⟨e, ha, hd⟩
    · exact .inl (hfront hac hc hb)
    · exact .inr (hfront (Ne.symm hac) ha hd)

theorem Confusable.tag_eq (h : v.Confusable w) : v.tag = w.tag := by
  obtain ⟨digits, _, hname, hlevel⟩ := h.digits
  rw [tag, tag, h.type, hname, hlevel]
  simp only [String.append_assoc]

theorem typeName_of_tag_eq (hv : v.HasBasicType) (hw : w.HasBasicType) (h : v.tag = w.tag) :
    v.typeName = w.typeName := by
  have hlast (front back : String) : front ++ ":" ++ Kind.integerWord.text ++ ">" ≠
      back ++ ":" ++ Kind.realWord.text ++ ">" := by
    intro h
    have hlast := congrArg (fun s : String => s.toList.reverse.take 2) h
    simp [Kind.text] at hlast
  unfold tag at h
  rcases hv with hv | hv <;> rcases hw with hw | hw <;> rw [hv, hw]
  · rw [hv, hw] at h
    exact absurd h (hlast _ _)
  · rw [hv, hw] at h
    exact absurd h.symm (hlast _ _)

/-- Tags that agree show the same name, or one name has digits at its end that are read as digits of
the level in the other tag. -/
theorem name_eq_or_confusable (hv : v.HasBasicType) (hw : w.HasBasicType) (h : v.tag = w.tag) :
    v.name = w.name ∨ v.Confusable w ∨ w.Confusable v := by
  have htype := typeName_of_tag_eq hv hw h
  have hfront : v.name ++ toString v.level = w.name ++ toString w.level := by
    rw [tag, tag, htype] at h
    simp only [String.append_left_inj] at h
    rwa [String.append_assoc, String.append_assoc, String.append_right_inj] at h
  rcases append_eq_append_cases hfront with hname | hdigits | ⟨digits, hne, hname, hlevel⟩
  · exact .inl hname
  · exact .inr (.inl ⟨htype, hdigits⟩)
  · exact .inr (.inr ⟨htype.symm, digits, hne, hname, hlevel⟩)

/-- No level up to ten begins with the digits of another one. -/
theorem not_confusable_of_level_le (hv : 1 ≤ v.level ∧ v.level ≤ 10)
    (hw : 1 ≤ w.level ∧ w.level ≤ 10) : ¬ v.Confusable w := by
  have hsuffix : ∀ i j : Fin 10, (toString ((j : Int) + 1)).toList <:+
      (toString ((i : Int) + 1)).toList → i = j := by
    decide +kernel
  have hindex {level : Int} (h : 1 ≤ level ∧ level ≤ 10) : ∃ i : Fin 10, level = (i : Int) + 1 :=
    ⟨⟨(level - 1).toNat, by omega⟩, by simp only; omega⟩
  intro h
  obtain ⟨digits, hne, _, hlevel⟩ := h.digits
  obtain ⟨i, hi⟩ := hindex hv
  obtain ⟨j, hj⟩ := hindex hw
  rw [hi, hj] at hlevel
  obtain rfl : i = j := by
    refine hsuffix i j ⟨digits.toList, ?_⟩
    rw [hlevel, String.toList_append]
  refine hne ((String.append_left_inj (toString ((i : Int) + 1))).mp ?_)
  rw [String.empty_append, ← hlevel]

end Variable

/-- The block of the first procedure of a block, then that of the first procedure in there, and so
on. -/
def Block.descend : Nat → Block → Block
  | 0, b => b
  | n + 1, b =>
    match b.decls.find? Decl.isProcedure with
    | some (.procedure _ _ inner) => inner.descend n
    | _ => b

theorem Node.exists_references {α : Type} {f : Token → α} {nodes : List Node} {a b : α}
    (h : (nodes.filterMap Node.reference?).map f = [a, b]) :
    ∃ t u, .expr (.variable t) ∈ nodes ∧ .expr (.variable u) ∈ nodes ∧ f t = a ∧ f u = b := by
  obtain ⟨t, rest, hreferences, ht, hrest⟩ := List.map_eq_cons_iff.mp h
  obtain ⟨u, rfl, hu⟩ := List.map_eq_singleton_iff.mp hrest
  have hmem : ∀ s ∈ [t, u], .expr (.variable s) ∈ nodes := by
    intro s hs
    rw [← hreferences] at hs
    obtain ⟨node, hnode, hreference⟩ := List.mem_filterMap.mp hs
    unfold reference? at hreference
    split at hreference
    · cases hreference
      exact hnode
    · cases hreference
  have hmem_u := hmem u (List.mem_cons_of_mem _ List.mem_cons_self)
  exact ⟨t, u, hmem t List.mem_cons_self, hmem_u, ht, hu⟩

theorem Block.nodes_subset_of_mem {b : Block} {d : Decl} (h : d ∈ b.decls) :
    d.nodes ⊆ b.nodes := by
  cases b with
  | mk decls start body =>
    have hall : d.nodes ⊆ Decl.nodesAll decls := by
      induction decls with
      | nil => cases h
      | cons first rest ih =>
        rw [Decl.nodesAll]
        rcases List.mem_cons.mp h with rfl | h
        · exact List.subset_append_left _ _
        · exact List.Subset.trans (ih h) (List.subset_append_right _ _)
    rw [Block.nodes]
    exact List.subset_cons_of_subset _ (List.subset_append_of_subset_left _ hall)

namespace Program

variable {p : Program} {path : List Procedure} {block : Block} {v : Variable}

theorem Nests.nodes_subset (h : p.Nests path block) : block.nodes ⊆ p.nodes := by
  induction h with
  | program => exact List.subset_cons_self _ _
  | procedure outer declared ih =>
    refine List.Subset.trans ?_ (List.Subset.trans (Block.nodes_subset_of_mem declared) ih)
    rw [Decl.nodes]
    exact List.subset_cons_of_subset _ (List.subset_append_right _ _)

theorem Nests.descend (h : p.Nests path block) (n : Nat) :
    ∃ path', p.Nests path' (block.descend n) := by
  induction n generalizing path block with
  | zero => exact ⟨path, h⟩
  | succ n ih =>
    rw [Block.descend]
    split
    · next hfind => exact ih (.procedure h (List.mem_of_find?_eq_some hfind))
    · exact ⟨path, h⟩

/-- The type of a declared variable is a node of the program. -/
theorem Declares.exists_type (h : p.Declares path (.variable v)) :
    ∃ t, .type t ∈ p.nodes ∧ v.typeName = t.kind.text := by
  cases h with
  | @ofVariable path block name type routine declared =>
    refine ⟨type, routine.nodes_subset (Block.nodes_subset_of_mem declared ?_), rfl⟩
    rw [Decl.nodes]
    exact List.mem_cons_of_mem _ List.mem_cons_self
  | ofParam routine declared =>
    cases routine with
    | procedure outer hdecl =>
      obtain ⟨param, hparam, rfl⟩ := List.mem_map.mp declared
      refine ⟨param.type, outer.nodes_subset (Block.nodes_subset_of_mem hdecl ?_), rfl⟩
      rw [Decl.nodes]
      have htype : Node.type param.type ∈ [Node.param param, Node.type param.type] :=
        List.mem_cons_of_mem _ List.mem_cons_self
      refine List.mem_cons_of_mem _ (List.mem_append_left _ ?_)
      exact List.mem_flatMap.mpr ⟨param, hparam, htype⟩

theorem Declares.hasBasicType (h : p.Declares path (.variable v))
    (hp : ∀ node ∈ p.nodes, node.Admissible) : v.HasBasicType := by
  obtain ⟨t, hnode, htype⟩ := h.exists_type
  have hbasic : t.kind.isBasicType = true := hp _ hnode
  simp only [Kind.isBasicType, Bool.or_eq_true, beq_iff_eq] at hbasic
  rw [Variable.HasBasicType, htype]
  exact hbasic.imp (congrArg _) (congrArg _)

/-- A reference in the body of a routine stands for a variable of the routine or of one around it,
which its tag shows. -/
theorem Describes.exists_tagged {S : Scopes} {r : Resolution} {t : Token}
    (hS : p.Describes path S.toList) (hp : ∀ node ∈ p.nodes, node.Admissible)
    (ht : (Node.expr (.variable t)).Resolved r S) :
    ∃ v, S.lookup v.name = some (.variable v) ∧ r.references.find? t.index = some v ∧
      r.labelling.reference t = v.tag ∧ v.HasBasicType ∧ 1 ≤ v.level ∧
      v.level ≤ path.length + 1 := by
  obtain ⟨v, hlookup, hentry⟩ := ht
  have hname : v.name = t.name := Scopes.name_of_lookup hlookup
  obtain ⟨path', hsuffix, hdeclares | ⟨_, _, hbuiltin⟩⟩ := hS.lookup hlookup
  · have hlevel : v.level = path'.length + 1 := hdeclares.level_eq
    have hlength := hsuffix.length_le
    rw [← hname] at hlookup
    refine ⟨v, hlookup, hentry, ?_, hdeclares.hasBasicType hp, by omega, by omega⟩
    simp only [Resolution.labelling, hentry, Variable.tag, hname]
  · cases hbuiltin

/-- Two references in the body of a routine have the same tag if they stand for the same variable,
or if the variables can be confused, and for no other reason. The level of the scope of the routine
is one more than the number of procedures around the body: where it is ten or less, no two variables
can be confused. -/
theorem tags_tell_variables_unless_confusable {file : String} {source : Bytes} {index : Nat}
    {r : Resolution} (hp : Program.ofSource file source index = .ok p) (hr : p.resolve.1 = .ok r)
    (hn : p.Nests path block) {t u : Token} (ht : .expr (.variable t) ∈ Stmt.nodesAll block.body)
    (hu : .expr (.variable u) ∈ Stmt.nodesAll block.body) :
    ∃ v w, r.references.find? t.index = some v ∧ r.references.find? u.index = some w ∧
      (r.labelling.reference t = r.labelling.reference u ↔
        v = w ∨ v.Confusable w ∨ w.Confusable v) ∧
      (path.length < 10 → (r.labelling.reference t = r.labelling.reference u ↔ v = w)) := by
  obtain ⟨S, hS, hnodes⟩ := hn.describes_body (resolved hr (nodup_uses hp))
  have hadmissible := admissible_nodes hp
  obtain ⟨v, hv, hventry, hvtag, hvtype, hvpos, hvlevel⟩ :=
    hS.exists_tagged hadmissible (hnodes _ ht)
  obtain ⟨w, hw, hwentry, hwtag, hwtype, hwpos, hwlevel⟩ :=
    hS.exists_tagged hadmissible (hnodes _ hu)
  have hiff : v.tag = w.tag ↔ v = w ∨ v.Confusable w ∨ w.Confusable v := by
    constructor
    · intro h
      refine (Variable.name_eq_or_confusable hvtype hwtype h).imp_left fun hname => ?_
      -- in one body a name stands for one variable only
      rw [hname] at hv
      cases hv.symm.trans hw
      rfl
    · rintro (rfl | h | h)
      · rfl
      · exact h.tag_eq
      · exact h.tag_eq.symm
  rw [hvtag, hwtag]
  refine ⟨v, w, hventry, hwentry, hiff, fun hdepth => hiff.trans (or_iff_left ?_)⟩
  have hv10 : 1 ≤ v.level ∧ v.level ≤ 10 := ⟨hvpos, by omega⟩
  have hw10 : 1 ≤ w.level ∧ w.level ≤ 10 := ⟨hwpos, by omega⟩
  rintro (h | h)
  · exact Variable.not_confusable_of_level_le hv10 hw10 h
  · exact Variable.not_confusable_of_level_le hw10 hv10 h

/-- The variables `x` and `x1` of a program have different tags. -/
theorem tags_tell_variables_unless_confusable_digit :
    let source := "program p; var x, x1 : integer; begin x1 := x end.".toList.map fun c =>
      c.toNat.toUInt8
    ∃ p r t u v w, Program.ofSource "p.pas" source = .ok p ∧ p.resolve.1 = .ok r ∧
      .expr (.variable t) ∈ Stmt.nodesAll p.block.body ∧
      .expr (.variable u) ∈ Stmt.nodesAll p.block.body ∧
      r.references.find? t.index = some v ∧ r.references.find? u.index = some w ∧
      v.name = "x1" ∧ w.name = "x" ∧ r.labelling.reference t ≠ r.labelling.reference u := by
  intro source
  obtain ⟨p, r, hp, hr, htest⟩ : ∃ p r, Program.ofSource "p.pas" source = .ok p ∧
      p.resolve.1 = .ok r ∧
        (((Stmt.nodesAll p.block.body).filterMap Node.reference?).map fun t =>
          (r.references.find? t.index).map Variable.name) == [some "x1", some "x"] :=
    exists_resolved (by decide +kernel)
  obtain ⟨t, u, ht, hu, hx1, hx⟩ := Node.exists_references (beq_iff_eq.mp htest)
  obtain ⟨v, w, hv, hw, _, htags⟩ := tags_tell_variables_unless_confusable hp hr .program ht hu
  rw [hv] at hx1
  rw [hw] at hx
  refine ⟨p, r, t, u, v, w, hp, hr, ht, hu, hv, hw, Option.some.inj hx1, Option.some.inj hx, ?_⟩
  intro h
  cases (htags (by decide)).mp h
  exact absurd (hx1.symm.trans hx) (by decide)

/-- The parameter `x` of a procedure whose scope has level eleven has the tag of the `x1` of the
program. -/
theorem different_variables_can_have_one_tag :
    let source := ("program p;var x1:integer;procedure b;procedure c;procedure d;procedure e;" ++
      "procedure f;procedure g;procedure h;procedure i;procedure j;procedure k(x:integer);" ++
      "begin x:=x1 end;begin end;begin end;begin end;begin end;begin end;begin end;begin end;" ++
      "begin end;begin end;begin end.").toList.map fun c => c.toNat.toUInt8
    ∃ p r path block t u v w, Program.ofSource "p.pas" source = .ok p ∧ p.resolve.1 = .ok r ∧
      p.Nests path block ∧ .expr (.variable t) ∈ Stmt.nodesAll block.body ∧
      .expr (.variable u) ∈ Stmt.nodesAll block.body ∧
      r.references.find? t.index = some v ∧ r.references.find? u.index = some w ∧ v ≠ w ∧
      r.labelling.reference t = "<x11:INTEGER>" ∧ r.labelling.reference u = "<x11:INTEGER>" := by
  intro source
  obtain ⟨p, r, hp, hr, htest⟩ : ∃ p r, Program.ofSource "p.pas" source = .ok p ∧
      p.resolve.1 = .ok r ∧
        (((Stmt.nodesAll (p.block.descend 10).body).filterMap Node.reference?).map fun t =>
          ((r.references.find? t.index).map Variable.name, r.labelling.reference t)) ==
            [(some "x", "<x11:INTEGER>"), (some "x1", "<x11:INTEGER>")] :=
    exists_resolved (by decide +kernel)
  obtain ⟨path, hnests⟩ := Nests.descend (.program (p := p)) 10
  obtain ⟨t, u, ht, hu, hx, hx1⟩ := Node.exists_references (beq_iff_eq.mp htest)
  obtain ⟨hx, htag⟩ := Prod.mk.inj hx
  obtain ⟨hx1, htag1⟩ := Prod.mk.inj hx1
  obtain ⟨v, hv, hvname⟩ := Option.map_eq_some_iff.mp hx
  obtain ⟨w, hw, hwname⟩ := Option.map_eq_some_iff.mp hx1
  refine ⟨p, r, path, _, t, u, v, w, hp, hr, hnests, ht, hu, hv, hw, ?_, htag, htag1⟩
  rintro rfl
  exact absurd (hvname.symm.trans hwname) (by decide)

end Program

end MiniPascal
