import MiniPascal.Proofs.Rendering
import MiniPascal.Proofs.Syntax.Bare

/-!
# Rendered statements and declarations

Every rendered statement ends with a semicolon, so that an empty statement follows the last one, and
empty statements are not rendered. The lines of a program therefore print the tree in which each
compound has one empty statement, at its end. A line can be followed by anything, so that lines are
put together as they come.
-/
namespace MiniPascal

open Grammar

mutual

def Stmt.tidied : Stmt → List Stmt
  | .compound start children => [.compound start (Stmt.tidiedAll children)]
  | .assign target op value => [.assign target op value]
  | .call name args => [.call name args]
  | .empty => []

def Stmt.tidiedAll : List Stmt → List Stmt
  | [] => [.empty]
  | s :: rest => s.tidied ++ Stmt.tidiedAll rest

end

mutual

def Decl.tidied : Decl → Decl
  | .variable name type => .variable name type
  | .procedure name params block => .procedure name params block.tidied

def Decl.tidiedAll : List Decl → List Decl
  | [] => []
  | d :: rest => d.tidied :: Decl.tidiedAll rest

def Block.tidied : Block → Block
  | .mk decls start body => .mk (Decl.tidiedAll decls) start (Stmt.tidiedAll body)

end

/-- The program in which each compound has one empty statement, at its end. -/
def Program.tidied (p : Program) : Program := { p with block := p.block.tidied }

section

variable (f : Relabeling)

theorem Stmt.bareAll_tidiedAll (ss : List Stmt) :
    Stmt.bareAll f (Stmt.tidiedAll ss) = Stmt.bareAll f ss := by
  induction ss using Stmt.sequence_induction with
  | nil => rfl
  | compound start children rest ihc ihr =>
    change .compound (f.toFun start) (Stmt.bareAll f (Stmt.tidiedAll children)) ::
      Stmt.bareAll f (Stmt.tidiedAll rest) = _
    rw [ihc, ihr]
    rfl
  | assign target op value rest ih | call name args rest ih => exact congrArg (_ :: ·) ih
  | empty rest ih => exact ih

mutual

theorem Decl.bareAll_tidiedAll : ∀ ds : List Decl,
    Decl.bareAll f (Decl.tidiedAll ds) = Decl.bareAll f ds
  | [] => rfl
  | .variable name type :: rest => by
    rw [Decl.tidiedAll, Decl.bareAll, Decl.bareAll, Decl.bareAll_tidiedAll rest]
    rfl
  | .procedure name params block :: rest => by
    rw [Decl.tidiedAll, Decl.bareAll, Decl.bareAll, Decl.bareAll_tidiedAll rest, Decl.tidied,
      Decl.bare, Decl.bare, Block.bare_tidied block]

theorem Block.bare_tidied : ∀ b : Block, b.tidied.bare f = b.bare f
  | .mk decls start body => by
    rw [Block.tidied, Block.bare, Block.bare, Decl.bareAll_tidiedAll decls,
      Stmt.bareAll_tidiedAll]

end

/-- Tidying changes nothing but empty statements. -/
theorem Program.bare_tidied (p : Program) : p.tidied.bare f = p.bare f := by
  rw [tidied, bare, bare, p.block.bare_tidied]

end

theorem Token.plain_of_kind {t : Token} {k : Kind} (h : t.kind = k) (hk : k ∈ Kind.fixed) :
    t.plain = k.token := by
  subst h
  exact plain_of_fixed hk

section Lines

variable {text : String} {tokens : List Token}

theorem writes_indent (indent : Nat) :
    WritesBefore Anything (String.join (List.replicate indent "   ")) [] := by
  induction indent with
  | zero => exact writes_blank "" (by decide)
  | succ indent ih =>
    rw [List.replicate_succ, String.join_cons]
    exact (writes_blank "   " (by decide)).closed ih

theorem writes_line (indent : Nat) (h : WritesBefore Delimited text tokens) :
    WritesBefore Anything (renderedLine indent text) tokens := by
  have hline := ((writes_indent indent).closed h).delimited (writes_blank "\n" (by decide))
    (delimited_of_head (by decide))
  rw [List.append_nil] at hline
  exact hline

/-- A keyword in lower case. -/
theorem writes_word (text : String) {k : Kind} (hk : k ∈ Kind.keywords)
    (h : Spells k (some text) (text.toList.flatMap String.utf8EncodeChar)) :
    WritesBefore Delimited text [k.token] := by
  rw [← Text.encode_eq] at h
  exact Kind.writes_of_spells (List.mem_append_left _ (List.mem_append_left _ hk)) h

theorem writes_begin (indent : Nat) :
    WritesBefore Anything (renderedLine indent "begin") [Kind.beginWord.token] :=
  writes_line indent (writes_word "begin" (by decide) (by decide +kernel))

/-- The last word of a block, which a dot may follow as well. -/
theorem writes_end {k : Kind} (hk : k = .semicolon ∨ k = .dot) :
    WritesBefore Anything ("end" ++ k.text) [Kind.endWord.token, k.token] := by
  have hbytes : Text.encode "end" = [0x65, 0x6E, 0x64] := by
    rw [Text.encode_eq]
    decide +kernel
  -- a dot does not delimit every token, but it ends a word
  have hword (g : UInt8) (hg : isWordByte g = false) (more : Bytes) :
      Writes "end" [Kind.endWord.token] (g :: more) := by
    have htake : ([0x6E, 0x64] ++ g :: more).takeWhile isWordByte = [0x6E, 0x64] := by
      have hnd : ∀ b ∈ [0x6E, 0x64], isWordByte b = true := List.all_eq_true.mp rfl
      rw [List.takeWhile_append_of_pos hnd, List.takeWhile_cons_of_neg (by rw [hg]; decide)]
      rfl
    have htoken := (Cursor.TokenAt.word (b := 0x65) rfl (by decide) rfl
      (congrArg (0x65 :: ·) htake.symm)).tokenAt?_eq
    exact writes_token hbytes htoken
  intro more _
  have hmark : k ∈ Kind.marks := by rcases hk with rfl | rfl <;> decide
  have hbefore : Writes "end" [Kind.endWord.token] (Text.encode k.text ++ more) := by
    rw [Text.encode_eq]
    rcases hk with rfl | rfl
    · exact hword 0x3B rfl more
    · exact hword 0x2E rfl more
  exact hbefore.append (Kind.writes_mark hmark more trivial)

/-- The comment behind the last word is skipped. -/
theorem writes_endComment {name : Token}
    (h : ∀ x ∈ Text.encode name.name, isWordByte x = true) :
    WritesBefore Anything (endComment name) [] := by
  have hopen : Text.encode " \x7bEND OF " =
      0x20 :: 0x7B :: [0x45, 0x4E, 0x44, 0x20, 0x4F, 0x46, 0x20] := by
    rw [Text.encode_eq]
    decide +kernel
  have hclose : Text.encode "\x7d" = [0x7D] := by
    rw [Text.encode_eq]
    decide +kernel
  have hname : IsInside (Text.encode name.name) := by
    intro x hx
    have hword := h x hx
    refine ⟨?_, ?_⟩ <;> rintro rfl <;> cases hword
  have hinside : IsInside ([0x45, 0x4E, 0x44, 0x20, 0x4F, 0x46, 0x20] ++ Text.encode name.name) :=
    List.forall_mem_append.mpr ⟨by simp, hname⟩
  refine fun more _ => writes_gap ?_
  rw [endComment, Text.encode_append, Text.encode_append, hopen, hclose]
  exact .blank rfl (.comment hinside .nil)

end Lines

def PrintsEnded (n : Nonterminal) (mark : Kind) (text : String) (a : n.Tree) : Prop :=
  ∃ d : Derivation n, d.tree = a ∧ InRange d.yield ∧
    WritesBefore Anything text (d.yield ++ [mark.token])

section

variable {follow : Bytes → Prop} {text text' : String} {n : Nonterminal} {mark : Kind} {a : n.Tree}

theorem PrintsEnded.blank (h : PrintsEnded n mark text a) : PrintsEnded n mark (text ++ " ") a := by
  obtain ⟨d, htree, hr, hwrites⟩ := h
  exact ⟨d, htree, hr, hwrites.before.blank⟩

theorem PrintsEnded.line (indent : Nat) (h : PrintsEnded n mark text a) :
    PrintsEnded n mark (renderedLine indent text) a := by
  obtain ⟨d, htree, hr, hwrites⟩ := h
  exact ⟨d, htree, hr, writes_line indent hwrites.before⟩

/-- A mark behind a phrase. -/
theorem Prints.ended (h : Prints n Delimited text a) (mark : Kind)
    (hmark : mark ∈ Kind.marks ∧ mark ≠ .dot := by decide) :
    PrintsEnded n mark (text ++ mark.text) a := by
  obtain ⟨d, htree, hr, hwrites⟩ := h
  exact ⟨d, htree, hr, hwrites.mark mark hmark⟩

end

namespace Prints

variable {follow : Bytes → Prop} {text text' : String} {i : Item}

theorem one {a : i.Tree} (h : Prints (.item i) follow text a) :
    Prints (.sequence i) follow text [a] := by
  obtain ⟨d, rfl, hr, hwrites⟩ := h
  exact ⟨.one d, rfl, hr, hwrites⟩

theorem more {a : i.Tree} {rest : List i.Tree} (h : PrintsEnded (.item i) i.separator text a)
    (h' : Prints (.sequence i) follow text' rest) :
    Prints (.sequence i) follow (text ++ text') (a :: rest) := by
  obtain ⟨d, rfl, hr, hwrites⟩ := h
  obtain ⟨d', rfl, hr', hwrites'⟩ := h'
  refine ⟨.more d ⟨i.separator.token, rfl⟩ d', rfl, ?_, ?_⟩
  · exact inRange_append.mpr ⟨hr, inRange_fixed (by cases i <;> decide) hr'⟩
  · rw [Derivation.yield, ← List.singleton_append, ← List.append_assoc]
    exact hwrites.closed hwrites'

/-- Items with separators between them, each followed by a blank. -/
theorem sequence {α : Type} {text : α → String} {tree : α → i.Tree} :
    ∀ {items : List α}, items ≠ [] →
      (∀ a ∈ items, Prints (.item i) Delimited (text a) (tree a)) →
      Prints (.sequence i) Delimited
        (String.intercalate (i.separator.text ++ " ") (items.map text)) (items.map tree)
  | [], h, _ => absurd rfl h
  | [a], _, h => by
    rw [List.map_singleton, String.intercalate_singleton]
    exact (h a List.mem_cons_self).one
  | a :: b :: items, _, h => by
    obtain ⟨ha, hrest⟩ := List.forall_mem_cons.mp h
    have hended : PrintsEnded (.item i) i.separator (text a ++ i.separator.text ++ " ") (tree a) :=
      (ha.ended i.separator (by cases i <;> decide)).blank
    rw [List.map_cons, List.map_cons, String.intercalate_cons_cons, ← List.map_cons,
      ← String.append_assoc]
    exact more hended (sequence (List.cons_ne_nil b items) hrest)

/-- A compound statement, given the line that closes it. -/
theorem compound (indent : Nat) {ss : List Stmt} {close : String} {mark : Kind}
    (h : Prints (.sequence .statement) Anything text ss)
    (hclose : WritesBefore Anything close [Kind.endWord.token, mark.token]) :
    PrintsEnded .compound mark (renderedLine indent "begin" ++ text ++ close)
      (Kind.beginWord.token, ss) := by
  obtain ⟨d, rfl, hr, hwrites⟩ := h
  refine ⟨.compound ⟨Kind.beginWord.token, rfl⟩ d ⟨Kind.endWord.token, rfl⟩, rfl, ?_, ?_⟩
  · exact inRange_fixed (by decide) (inRange_append_fixed (by decide) hr)
  · have hwhole := ((writes_begin indent).closed hwrites).closed hclose
    rw [Derivation.yield, List.cons_append, List.append_assoc]
    exact hwhole

end Prints

section Statements

variable {tokens : List Token}

theorem Readable.prints_assign (hs : Readable tokens) {target op : Token} {value : Expr}
    (h : ∀ node ∈ (Stmt.assign target op value).nodes, node.Lexical tokens) :
    Prints (.item .statement) Delimited (target.name ++ " := " ++ value.render .plain)
      (.assign target.plain op.plain (value.relabel .plain)) := by
  obtain ⟨hop, hnodes⟩ := List.forall_mem_cons.mp h
  obtain ⟨htarget, hvalue⟩ := List.forall_mem_cons.mp hnodes
  obtain ⟨d, htree, hr, hwrites⟩ := (value.printed hs hvalue).expr
  have hstart := (hs.writes_name htarget).delimited
    (writes_spaced (by decide : Kind.assign ∈ Kind.fixed)) (delimited_of_head (by decide))
  rw [Token.plain_of_kind hop (by decide)]
  refine ⟨.assigning (.assignment ⟨target.plain, htarget.2⟩ ⟨Kind.assign.token, rfl⟩ d), ?_, ?_,
    hstart.closed hwrites⟩
  · rw [Derivation.tree, Derivation.tree, htree]
  · exact inRange_name htarget.2 (inRange_fixed (by decide) hr)

theorem Readable.prints_actuals (hs : Readable tokens) {args : List Expr}
    (h : ∀ node ∈ args.flatMap Expr.nodes, node.Lexical tokens) :
    Prints .actuals Delimited (String.intercalate ", " (args.map fun e => e.render .plain))
      (args.map (Expr.relabel .plain)) := by
  by_cases hempty : args = []
  · subst hempty
    exact ⟨.noActuals, rfl, inRange_nil, (writes_blank "" (by decide)).before⟩
  · have hitem (e : Expr) (he : e ∈ args) :
        Prints (.item .expr) Delimited (e.render .plain) (e.relabel .plain) :=
      (e.printed hs fun node hnode => h node (List.mem_flatMap.mpr ⟨e, he, hnode⟩)).expr
    obtain ⟨d, htree, hr, hwrites⟩ := Prints.sequence (i := .expr) hempty hitem
    exact ⟨.actuals d, htree, hr, hwrites⟩

theorem Readable.prints_call (hs : Readable tokens) {name : Token} {args : List Expr}
    (h : ∀ node ∈ (Stmt.call name args).nodes, node.Lexical tokens) :
    Prints (.item .statement) Delimited
      (name.name ++ "(" ++ String.intercalate ", " (args.map fun e => e.render .plain) ++ ")")
      (.call name.plain (args.map (Expr.relabel .plain))) := by
  obtain ⟨hname, hargs⟩ := List.forall_mem_cons.mp h
  obtain ⟨d, htree, hr, hwrites⟩ := hs.prints_actuals hargs
  have hwhole := (((hs.writes_name hname).mark .openParen).closed hwrites).mark .closeParen
  refine ⟨.calling (.procCall ⟨name.plain, hname.2⟩ ⟨Kind.openParen.token, rfl⟩ d
    ⟨Kind.closeParen.token, rfl⟩), ?_, ?_, hwhole.before⟩
  · rw [Derivation.tree, Derivation.tree, htree]
  · exact inRange_name hname.2
      (inRange_fixed (by decide) (inRange_append_fixed (by decide) hr))

/-- The lines of some statements print them without the empty ones, and one behind them. -/
theorem Readable.prints_statements (hs : Readable tokens) (indent : Nat) (ss : List Stmt)
    (h : ∀ node ∈ Stmt.nodesAll ss, node.Lexical tokens) :
    Prints (.sequence .statement) Anything (Stmt.renderAll .plain indent ss)
      (Stmt.relabelAll .plain (Stmt.tidiedAll ss)) := by
  -- a semicolon ends each rendered statement, so that the sequence always goes on behind it
  induction ss using Stmt.sequence_induction generalizing indent with
  | nil => exact ⟨.one .nothing, rfl, inRange_nil, writes_blank "" (by decide)⟩
  | compound start children rest ihc ihr =>
    obtain ⟨hfirst, hrest⟩ := List.forall_mem_append.mp h
    obtain ⟨hstart, hchildren⟩ := List.forall_mem_cons.mp hfirst
    obtain ⟨d, htree, hr, hwrites⟩ := (ihc (indent + 1) hchildren).compound indent
      (writes_line indent (writes_end (.inl rfl)).before)
    refine Prints.more ⟨.nested d, ?_, hr, hwrites⟩ (ihr indent hrest)
    rw [Derivation.tree, htree, ← Token.plain_of_kind hstart (by decide)]
    rfl
  | assign target op value rest ih =>
    obtain ⟨hfirst, hrest⟩ := List.forall_mem_append.mp h
    have hended := (hs.prints_assign hfirst).ended .semicolon
    exact Prints.more (hended.line indent) (ih indent hrest)
  | call name args rest ih =>
    obtain ⟨hfirst, hrest⟩ := List.forall_mem_append.mp h
    have hended := (hs.prints_call hfirst).ended .semicolon
    rw [String.append_assoc] at hended
    exact Prints.more (hended.line indent) (ih indent hrest)
  | empty rest ih =>
    obtain ⟨-, hrest⟩ := List.forall_mem_append.mp h
    rw [Stmt.renderAll, Stmt.render, String.empty_append]
    exact ih indent hrest

end Statements

section Declarations

variable {tokens : List Token}

theorem Readable.prints_group (hs : Readable tokens) {name type : Token}
    (hname : name ∈ tokens ∧ name.kind = .identifier) (htype : type.kind.isBasicType = true) :
    Prints (.item .group) Delimited (name.name ++ " : " ++ type.kind.text)
      [{ name := name.plain, type := type.plain }] := by
  have hfixed : type.kind ∈ Kind.fixed := by
    simp only [Kind.isBasicType, Bool.or_eq_true, beq_iff_eq] at htype
    rcases htype with hk | hk <;> rw [hk] <;> decide
  have hcolon := (hs.writes_name hname).delimited
    (writes_spaced (by decide : Kind.colon ∈ Kind.fixed)) (delimited_of_head (by decide))
  rw [Token.plain_of_fixed hfixed]
  refine ⟨.group (.one (.name ⟨name.plain, hname.2⟩)) ⟨Kind.colon.token, rfl⟩
    ⟨type.kind.token, htype⟩, rfl, ?_, hcolon.closed (Kind.writes_fixed hfixed)⟩
  exact inRange_name hname.2 (inRange_fixed (by decide) (inRange_fixed hfixed inRange_nil))

theorem Readable.prints_formals (hs : Readable tokens) (level : Int) {params : List Param}
    (h : ∀ node ∈ params.flatMap (fun p => [Node.param p, .type p.type]), node.Lexical tokens) :
    Prints .formals Delimited (renderParams .plain level params)
      (params.map (Param.relabel .plain)) := by
  by_cases hempty : params = []
  · subst hempty
    exact ⟨.noFormals, rfl, inRange_nil, (writes_blank "" (by decide)).before⟩
  · have hitem (p : Param) (hp : p ∈ params) : Prints (.item .group) Delimited
        (p.name.name ++ " : " ++ p.type.kind.text) [p.relabel .plain] := by
      have hnodes (node : Node) (hnode : node ∈ [Node.param p, .type p.type]) :=
        h node (List.mem_flatMap.mpr ⟨p, hp, hnode⟩)
      exact hs.prints_group (hnodes _ List.mem_cons_self)
        (hnodes _ (List.mem_cons_of_mem _ List.mem_cons_self))
    obtain ⟨d, htree, hr, hwrites⟩ := Prints.sequence (i := .group) hempty hitem
    have hopen := Kind.writes_mark (by decide : Kind.openParen ∈ Kind.marks)
    have hwhole := (hopen.closed hwrites).mark .closeParen
    rw [renderParams, if_neg (by simpa using hempty)]
    refine ⟨.formals ⟨Kind.openParen.token, rfl⟩ d ⟨Kind.closeParen.token, rfl⟩, ?_, ?_,
      hwhole.before⟩
    · rw [Derivation.tree, htree]
      exact List.map_eq_flatMap.symm
    · exact inRange_fixed (by decide) (inRange_append_fixed (by decide) hr)

theorem delimited_renderParams (level : Int) (params : List Param) {more : Bytes}
    (h : Delimited more) :
    Delimited (Text.encode (renderParams .plain level params) ++ more) := by
  rw [renderParams]
  split
  · rw [Text.encode_eq]
    exact h
  · rw [Text.encode_append, Text.encode_append, List.append_assoc, List.append_assoc]
    exact (delimited_of_head (by decide)).append _

theorem Prints.varSection (indent : Nat) {text text' : String} {ps : List Param} {ds : List Decl}
    (h : Prints (.item .group) Delimited text ps) (h' : Prints .declarations Anything text' ds) :
    Prints .declarations Anything (renderedLine indent ("var " ++ text ++ ";") ++ text')
      (ps.map (fun p => .variable p.name p.type) ++ ds) := by
  obtain ⟨d, rfl, hr, hwrites⟩ := h
  obtain ⟨d', rfl, hr', hwrites'⟩ := h'
  have hhead := writes_word "var" (by decide : Kind.varWord ∈ Kind.keywords) (by decide +kernel)
  have hline := (hhead.blank.closed hwrites).mark .semicolon
  refine ⟨.varSection ⟨Kind.varWord.token, rfl⟩ (.lastVarDecl d ⟨Kind.semicolon.token, rfl⟩) d',
    rfl, ?_, (writes_line indent hline.before).closed hwrites'⟩
  exact inRange_fixed (by decide)
    (inRange_append.mpr ⟨inRange_append_fixed (by decide) hr, hr'⟩)

theorem Prints.procedure (indent : Nat) {name params body text' : String} {t : Token}
    {ps : List Param} {b : Block} {ds : List Decl}
    (ht : t.kind = .identifier) (hname : WritesBefore Delimited name [t.plain])
    (hparams : Prints .formals Delimited params ps)
    (hfollow : ∀ more, Delimited more → Delimited (Text.encode params ++ more))
    (hbody : PrintsEnded .block .semicolon body b)
    (h' : Prints .declarations Anything text' ds) :
    Prints .declarations Anything
      (renderedLine indent ("procedure " ++ name ++ params ++ ";") ++ body ++ text')
      (.procedure t.plain ps b :: ds) := by
  obtain ⟨d, rfl, hr, hwrites⟩ := hparams
  obtain ⟨c, rfl, hc, hcwrites⟩ := hbody
  obtain ⟨d', rfl, hr', hwrites'⟩ := h'
  have hhead := writes_word "procedure" (by decide : Kind.procedureWord ∈ Kind.keywords)
    (by decide +kernel)
  have hline := ((hhead.blank.closed hname).append hwrites hfollow).mark .semicolon
  have hwhole := ((writes_line indent hline.before).closed hcwrites).closed hwrites'
  refine ⟨.procedure (.procedureDecl ⟨Kind.procedureWord.token, rfl⟩ ⟨t.plain, ht⟩ d
    ⟨Kind.semicolon.token, rfl⟩ c ⟨Kind.semicolon.token, rfl⟩) d', rfl, ?_, ?_⟩
  · refine inRange_append.mpr ⟨inRange_fixed (by decide) (inRange_name ht ?_), hr'⟩
    exact inRange_append.mpr
      ⟨hr, inRange_fixed (by decide) (inRange_append_fixed (by decide) hc)⟩
  · simp only [Derivation.yield, List.cons_append, List.nil_append, List.append_assoc] at hwhole ⊢
    exact hwhole

theorem Readable.writes_last (hs : Readable tokens) (indent : Nat) {k : Kind}
    (hk : k = .semicolon ∨ k = .dot) {name : Token}
    (hname : name ∈ tokens ∧ name.kind = .identifier) :
    WritesBefore Anything (renderedLine indent ("end" ++ k.text ++ endComment name))
      [Kind.endWord.token, k.token] :=
  writes_line indent
    ((writes_end hk).closed (writes_endComment (hs.name name hname.1 hname.2))).before

mutual

theorem Readable.prints_declarations (hs : Readable tokens) (level : Int) (indent : Nat) :
    ∀ ds : List Decl, (∀ node ∈ Decl.nodesAll ds, node.Lexical tokens) →
      Prints .declarations Anything (Decl.renderAll .plain level indent ds)
        (Decl.relabelAll .plain (Decl.tidiedAll ds))
  | [], _ => ⟨.noDeclarations, rfl, inRange_nil, writes_blank "" (by decide)⟩
  | .variable name type :: rest, h => by
    obtain ⟨hfirst, hrest⟩ := List.forall_mem_append.mp h
    obtain ⟨hname, htype⟩ := List.forall_mem_cons.mp hfirst
    have hvar := (hs.prints_group hname (htype _ List.mem_cons_self)).varSection indent
      (hs.prints_declarations level indent rest hrest)
    rw [← String.append_assoc, ← String.append_assoc] at hvar
    exact hvar
  | .procedure name params block :: rest, h => by
    obtain ⟨hfirst, hrest⟩ := List.forall_mem_append.mp h
    obtain ⟨hname, hinner⟩ := List.forall_mem_cons.mp hfirst
    obtain ⟨hparams, hblock⟩ := List.forall_mem_append.mp hinner
    have hlast := hs.writes_last (indent + 1) (.inl rfl) hname
    have hprocedure := Prints.procedure indent hname.2 (hs.writes_name hname)
      (hs.prints_formals (level + 1) hparams)
      (fun _ hmore => delimited_renderParams (level + 1) params hmore)
      (hs.prints_block (level + 1) (indent + 1) (indent + 1) block hblock hlast)
      (hs.prints_declarations level indent rest hrest)
    rw [← String.append_assoc] at hprocedure
    exact hprocedure

/-- The line that closes a block is not its own, and whatever it is, it ends the phrase. -/
theorem Readable.prints_block (hs : Readable tokens) (level : Int) (declIndent bodyIndent : Nat) :
    ∀ b : Block, (∀ node ∈ b.nodes, node.Lexical tokens) → ∀ {close : String} {mark : Kind},
      WritesBefore Anything close [Kind.endWord.token, mark.token] →
      PrintsEnded .block mark (b.render .plain level declIndent bodyIndent ++ close)
        (b.tidied.relabel .plain)
  | .mk decls start body, h, close, mark, hclose => by
    obtain ⟨-, hinner⟩ := List.forall_mem_cons.mp h
    obtain ⟨hdecls, hcompound⟩ := List.forall_mem_append.mp hinner
    obtain ⟨hstart, hbody⟩ := List.forall_mem_cons.mp hcompound
    obtain ⟨d, htree, hr, hwrites⟩ := hs.prints_declarations level declIndent decls hdecls
    obtain ⟨d', htree', hr', hwrites'⟩ :=
      (hs.prints_statements (bodyIndent + 1) body hbody).compound bodyIndent hclose
    refine ⟨.block d d', ?_, inRange_append.mpr ⟨hr, hr'⟩, ?_⟩
    · rw [Derivation.tree, htree, htree', ← Token.plain_of_kind hstart (by decide)]
      rfl
    · have hwhole := hwrites.closed hwrites'
      rw [← String.append_assoc, ← String.append_assoc, ← List.append_assoc] at hwhole
      exact hwhole

end

/-- A rendered program is a program, with one empty statement at the end of each compound. -/
theorem Readable.prints_program (hs : Readable tokens) {p : Program}
    (h : ∀ node ∈ p.nodes, node.Lexical tokens) :
    Prints .program Anything (p.render .plain) (p.tidied.relabel .plain) := by
  obtain ⟨hname, hblock⟩ := List.forall_mem_cons.mp h
  have hhead := writes_word "program" (by decide : Kind.programWord ∈ Kind.keywords)
    (by decide +kernel)
  have hline := (hhead.blank.closed (hs.writes_name hname)).mark .semicolon
  have hlast := hs.writes_last 0 (.inr rfl) hname
  obtain ⟨d, htree, hr, hwrites⟩ := hs.prints_block 1 1 0 p.block hblock hlast
  have hwhole := (writes_line 0 hline.before).closed hwrites
  refine ⟨.program ⟨Kind.programWord.token, rfl⟩ ⟨p.name.plain, hname.2⟩
    ⟨Kind.semicolon.token, rfl⟩ d ⟨Kind.dot.token, rfl⟩, ?_, ?_, ?_⟩
  · rw [Derivation.tree, htree]
    rfl
  · exact inRange_fixed (by decide) (inRange_name hname.2
      (inRange_fixed (by decide) (inRange_append_fixed (by decide) hr)))
  · rw [← String.append_assoc] at hwhole
    exact hwhole

end Declarations

end MiniPascal
