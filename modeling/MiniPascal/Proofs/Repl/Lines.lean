import MiniPascal.Proofs.Parser.Layout
import MiniPascal.Proofs.Repl.Entry

/-!
# A program fed line by line

The loop takes in the lines of a program one by one. Lines of white space before the program are
entries of their own. From the first other line on the text that is collected is the beginning of a
program, and it stays pending until it is one; that entry is the whole program, up to lines that
hold nothing but a gap. Behind it the loop meets blanks and comments only.
-/
namespace MiniPascal

def feedLines (lines : List Bytes) : Bytes := lines.flatMap (0x0A :: ·)

theorem feedLines_nil : feedLines [] = [] := rfl

theorem feedLines_cons (line : Bytes) (rest : List Bytes) :
    feedLines (line :: rest) = 0x0A :: (line ++ feedLines rest) := rfl

theorem intercalate_cons (line : Bytes) (rest : List Bytes) :
    [0x0A].intercalate (line :: rest) = line ++ feedLines rest := by
  induction rest generalizing line with
  | nil => rfl
  | cons line' rest ih =>
    rw [feedLines_cons, ← ih]
    rfl

theorem gap_of_cons {b : UInt8} {rest : Bytes} (hb : isGapByte b = true) (h : Gap (b :: rest)) :
    Gap rest := by
  cases h with
  | blank _ hrest => exact hrest
  | comment => cases hb

theorem gap_of_append {front rest : Bytes} (hfront : ∀ b ∈ front, isGapByte b = true)
    (h : Gap (front ++ rest)) : Gap rest := by
  induction front with
  | nil => exact h
  | cons b front ih =>
    obtain ⟨hb, hfront⟩ := List.forall_mem_cons.mp hfront
    exact ih hfront (gap_of_cons hb h)

namespace Repl

/-- The texts on which the loop acts as it takes in the lines. -/
def entries (r : Repl) : List Bytes → List Bytes
  | [] => []
  | line :: rest =>
    let text := r.extend line
    let next := (r.feed line).1
    (if isEntry text then [text] else []) ++ if next.ended then [] else next.entries rest

theorem isBlank_of_gap {text : Bytes} (h : ∀ b ∈ text, isGapByte b = true) :
    isBlank text = true := by
  have hpieces := Text.dropWhile_pieces_gap h []
  rw [List.append_nil] at hpieces
  have hhead : (Text.trim (Text.pieces text)).head? = none := by
    rw [Text.head?_trim, hpieces, Text.pieces]
    rfl
  rw [isBlank, List.isEmpty_iff]
  exact List.head?_eq_none_iff.mp hhead

/-- The loop acts on the texts, and this is all that it reports. -/
def Acts (r : Repl) (lines texts : List Bytes) (err : String) : Prop :=
  r.entries lines = texts ∧ (r.feedAll lines).2.err = err

section

variable {r next : Repl} {line : Bytes} {rest texts : List Bytes} {err : String} {shown : Shown}

theorem acts_nil (r : Repl) : Acts r [] [] "" := ⟨rfl, rfl⟩

theorem acts_cons (hfeed : r.feed line = (next, shown)) (hended : next.ended = false)
    (h : Acts next rest texts err) :
    Acts r (line :: rest) ((if isEntry (r.extend line) then [r.extend line] else []) ++ texts)
      (shown.err ++ err) := by
  obtain ⟨htexts, herr⟩ := h
  constructor
  · rw [entries, hfeed]
    simp only [hended, htexts, Bool.false_eq_true, if_false]
  · rw [feedAll, hfeed]
    simp only [hended, Bool.false_eq_true, if_false]
    exact congrArg (shown.err ++ ·) herr

theorem acts_cons_of_isBlank (hended : r.ended = false) (hblank : isBlank (r.extend line) = true)
    (h : Acts { r with pending := [] } rest texts err) :
    Acts r (line :: rest) (r.extend line :: texts) err := by
  have hentry : isEntry (r.extend line) = true := by
    rw [isEntry, hblank]
    rfl
  have hfeed : r.feed line = ({ r with pending := [] }, {}) := by
    rw [feed, if_pos hentry, act, if_pos hblank]
  have hacts := acts_cons hfeed hended h
  rw [if_pos hentry, String.empty_append] at hacts
  exact hacts

theorem acts_cons_of_pending (hended : r.ended = false)
    (hentry : isEntry (r.extend line) = false)
    (h : Acts { r with pending := r.extend line } rest texts err) :
    Acts r (line :: rest) texts err := by
  have hacts := acts_cons (feed_of_not_isEntry hentry) hended h
  rw [hentry, String.empty_append] at hacts
  exact hacts

theorem acts_cons_of_program (hended : r.ended = false) {p : Program}
    (hp : Program.ofSource fileName (r.extend line) = .ok p)
    (hsolid : ∃ b ∈ r.extend line, isGapByte b = false)
    (h : Acts { r with pending := [], history := r.history.add (historyEntry (r.extend line)) }
      rest texts err) :
    Acts r (line :: rest) (r.extend line :: texts)
      ((runEntry r.config (r.extend line)).1.err ++ err) := by
  have hneither : ¬ (isBlank (r.extend line) = true ∨ isCommand (r.extend line) = true) := by
    intro hor
    obtain ⟨b, hb, hsolid⟩ := hsolid
    have hgap : ¬ ∀ b ∈ r.extend line, isGapByte b = true := by
      intro hall
      rw [hall b hb] at hsolid
      cases hsolid
    obtain ⟨d, hd, _⟩ := error_of_isBlank_or_isCommand hgap hor fileName 0
    cases hp.symm.trans hd
  obtain ⟨hblank, hcommand⟩ := not_or.mp hneither
  have hentry : isEntry (r.extend line) = true := by
    rw [isEntry, isUnfinished, Program.read_fst, hp]
    exact Bool.or_true _
  have hfeed : r.feed line =
      ({ r with pending := [], history := r.history.add (historyEntry (r.extend line)) },
        (runEntry r.config (r.extend line)).1) := by
    rw [feed, if_pos hentry, act, if_neg hblank, if_neg hcommand]
  have hacts := acts_cons hfeed hended h
  rw [if_pos hentry] at hacts
  exact hacts

end

theorem extend_of_pending_nil {r : Repl} (h : r.pending = []) (line : Bytes) :
    r.extend line = line := by
  rw [extend, h]
  rfl

theorem extend_of_ne_nil {r : Repl} (h : r.pending ≠ []) (line : Bytes) :
    r.extend line = r.pending ++ 0x0A :: line := by
  rw [extend, List.isEmpty_eq_false_iff.mpr h]
  rfl

theorem error_of_gap {text : Bytes} (h : Gap text) :
    TokenStream.tokens (.ofSource fileName text) = [] ∧
      ∃ d, Program.ofSource fileName text = .error d ∧ d.isIncomplete = true := by
  have hreading := Cursor.Reading.endOfFile (c := Cursor.ofSource fileName text) h
  have hstream : TokenStream.ofSource fileName text = ⟨[], .endOfFile _⟩ :=
    Cursor.stream_of_endOfFile hreading.next_eq rfl
  have herror := Program.ofStream_of_head_ne (congrArg TokenStream.head hstream) Kind.noConfusion
  refine ⟨?_, _, herror, Diagnostic.isIncomplete_atToken rfl rfl⟩
  rw [hstream]

theorem ofSource_append_of_error {text : Bytes} {d : Diagnostic}
    (h : Program.ofSource fileName text = .error d) (hd : d.isIncomplete = false)
    (rest : List Bytes) : Program.ofSource fileName (text ++ feedLines rest) = .error d := by
  cases rest with
  | nil => rwa [feedLines_nil, List.append_nil]
  | cons line rest => exact Program.ofSource_extend_of_error h hd rfl _

/-- The beginning of a gap is no program, but it could be the beginning of one. -/
theorem error_of_gap_append {text : Bytes} {rest : List Bytes}
    (h : Gap (text ++ feedLines rest)) :
    ∃ d, Program.ofSource fileName text = .error d ∧ d.isIncomplete = true := by
  obtain ⟨hnil, d, hd, hincomplete⟩ := error_of_gap h
  cases htext : Program.ofSource fileName text with
  | error d' =>
    refine ⟨d', rfl, (Bool.not_eq_false _).mp fun hdefinitive => ?_⟩
    cases (ofSource_append_of_error htext hdefinitive rest).symm.trans hd
    rw [hincomplete] at hdefinitive
    cases hdefinitive
  | ok p =>
    -- the tokens of a program would still be there
    obtain ⟨derivation, eof, hstream, _⟩ := Program.exists_phrase htext
    obtain ⟨tokens, htokens⟩ : ∃ tokens, [] = derivation.yield ++ tokens := by
      cases rest with
      | nil =>
        rw [feedLines_nil, List.append_nil, hstream] at hnil
        exact ⟨[], by rw [show derivation.yield = [] from hnil]; rfl⟩
      | cons line rest =>
        obtain ⟨⟨tokens, htokens⟩, _⟩ :=
          TokenStream.ofSource_extend (g := 0x0A) rfl fileName text (line ++ feedLines rest) 0
        rw [feedLines_cons] at hnil
        rw [hnil, hstream] at htokens
        exact ⟨tokens, htokens⟩
    cases derivation
    cases htokens

/-- Behind a program the loop acts on blanks only. -/
theorem acts_gap (lines : List Bytes) {r : Repl} (hended : r.ended = false)
    (h : ∀ line rest, lines = line :: rest → Gap (r.extend line ++ feedLines rest)) :
    ∃ texts, Acts r lines texts "" ∧ ∀ text ∈ texts, isBlank text = true := by
  induction lines generalizing r with
  | nil => exact ⟨[], acts_nil r, List.forall_mem_nil _⟩
  | cons line rest ih =>
    have hgap := h line rest rfl
    obtain ⟨d, hd, hincomplete⟩ := error_of_gap_append hgap
    cases hentry : isEntry (r.extend line) with
    | true =>
      have hblank : ∀ b ∈ r.extend line, isGapByte b = true := by
        rcases isEntry_cases hentry with hblank | ⟨p, hp⟩ | ⟨d', hd', hdefinitive⟩
        · exact hblank
        · cases hp.symm.trans hd
        · cases hd'.symm.trans hd
          rw [hincomplete] at hdefinitive
          cases hdefinitive
      obtain ⟨texts, hacts, htexts⟩ := ih (r := { r with pending := [] }) hended
        fun line' rest' hrest => by
          rw [hrest] at hgap
          exact gap_of_cons rfl (gap_of_append hblank hgap)
      have hline := isBlank_of_gap hblank
      exact ⟨_, acts_cons_of_isBlank hended hline hacts, List.forall_mem_cons.mpr ⟨hline, htexts⟩⟩
    | false =>
      have hne : r.extend line ≠ [] := by
        intro hnil
        rw [hnil, isEntry, isBlank_of_gap (List.forall_mem_nil _)] at hentry
        cases hentry
      obtain ⟨texts, hacts, htexts⟩ := ih (r := { r with pending := r.extend line }) hended
        fun line' rest' hrest => by
          rw [extend_of_ne_nil (r := { r with pending := r.extend line }) hne]
          rw [hrest, feedLines_cons] at hgap
          rw [List.append_assoc]
          exact hgap
      exact ⟨texts, acts_cons_of_pending hended hentry hacts, htexts⟩

/-- A text that is a program is an entry. -/
theorem acts_cons_of_gap {r : Repl} (hended : r.ended = false) {line : Bytes} (rest : List Bytes)
    (hsolid : ∃ b ∈ r.extend line, isGapByte b = false) {p : Program}
    (hp : Program.ofSource fileName (r.extend line) = .ok p) (hgap : Gap (feedLines rest)) :
    ∃ texts, Acts r (line :: rest) (r.extend line :: texts)
        (runEntry r.config (r.extend line)).1.err ∧ ∀ text ∈ texts, isBlank text = true := by
  obtain ⟨texts, hacts, htexts⟩ := acts_gap rest
    (r := { r with pending := [], history := r.history.add (historyEntry (r.extend line)) })
    hended fun line' rest' hrest => by
      rw [hrest] at hgap
      exact gap_of_cons rfl hgap
  have hall := acts_cons_of_program hended hp hsolid hacts
  rw [String.append_empty] at hall
  exact ⟨texts, hall, htexts⟩

/-- From its first line on that is not blank, a program is one entry. -/
theorem acts_program {r : Repl} (hended : r.ended = false) {line : Bytes} {rest : List Bytes}
    (hsolid : ∃ b ∈ r.extend line, isGapByte b = false) {p : Program}
    (hp : Program.ofSource fileName (r.extend line ++ feedLines rest) = .ok p) :
    ∃ taken after texts, rest = taken ++ after ∧ Gap (feedLines after) ∧
      Program.ofSource fileName (r.extend line ++ feedLines taken) = .ok p ∧
      Acts r (line :: rest) ((r.extend line ++ feedLines taken) :: texts)
        (runEntry r.config (r.extend line ++ feedLines taken)).1.err ∧
      ∀ text ∈ texts, isBlank text = true := by
  induction rest generalizing r line with
  | nil =>
    rw [feedLines_nil, List.append_nil] at hp
    obtain ⟨texts, hacts, htexts⟩ := acts_cons_of_gap hended [] hsolid hp .nil
    refine ⟨[], [], texts, rfl, .nil, ?_, ?_, htexts⟩
    · rwa [feedLines_nil, List.append_nil]
    · rwa [feedLines_nil, List.append_nil]
  | cons line' rest ih =>
    cases htext : Program.ofSource fileName (r.extend line) with
    | ok q =>
      -- the text is a program already, so that what follows is a gap
      obtain ⟨rfl, hgap⟩ := Program.ofSource_extend_of_ok htext rfl hp
      obtain ⟨texts, hacts, htexts⟩ := acts_cons_of_gap hended (line' :: rest) hsolid htext hgap
      refine ⟨[], line' :: rest, texts, rfl, hgap, ?_, ?_, htexts⟩
      · rwa [feedLines_nil, List.append_nil]
      · rwa [feedLines_nil, List.append_nil]
    | error d =>
      -- one more line is collected
      have hnone (q : Program) : Program.ofSource fileName (r.extend line) ≠ .ok q := by
        rw [htext]
        intro h
        cases h
      have hentry := isEntry_eq_false hp hsolid hnone
      let next : Repl := { r with pending := r.extend line }
      have hextend : next.extend line' = r.extend line ++ 0x0A :: line' := by
        obtain ⟨b, hb, _⟩ := hsolid
        exact extend_of_ne_nil (r := next) (List.ne_nil_of_mem hb) line'
      have hsolid' : ∃ b ∈ next.extend line', isGapByte b = false := by
        obtain ⟨b, hb, hsolid⟩ := hsolid
        rw [hextend]
        exact ⟨b, List.mem_append_left _ hb, hsolid⟩
      have hp' : Program.ofSource fileName (next.extend line' ++ feedLines rest) = .ok p := by
        rw [hextend, List.append_assoc]
        exact hp
      obtain ⟨taken, after, texts, hrest, hgap, hq, hacts, htexts⟩ :=
        ih (r := next) hended hsolid' hp'
      have htaken : next.extend line' ++ feedLines taken =
          r.extend line ++ feedLines (line' :: taken) := by
        rw [hextend, List.append_assoc, feedLines_cons, List.cons_append]
      rw [htaken] at hq hacts
      exact ⟨line' :: taken, after, texts, congrArg (line' :: ·) hrest, hgap, hq,
        acts_cons_of_pending hended hentry hacts, htexts⟩

/-- The loop acts on the leading blank lines, then on the lines `taken` as one entry, a program with
the given tree, and then on blanks only; the lines `after` the entry are a gap. -/
def ReadsOneProgram (r : Repl) (lines : List Bytes) (dump : String) : Prop :=
  ∃ blanks taken after texts p, lines = blanks ++ (taken ++ after) ∧
    blanks = lines.takeWhile isBlank ∧
    Acts r lines (blanks ++ [0x0A].intercalate taken :: texts)
      (runEntry r.config ([0x0A].intercalate taken)).1.err ∧
    (∀ text ∈ texts, isBlank text = true) ∧
    Program.ofSource fileName ([0x0A].intercalate taken) = .ok p ∧ p.dump = dump ∧
    Gap ([0x0A].intercalate after)

theorem exists_solid_of_not_isBlank {text : Bytes} (h : ¬ isBlank text = true) :
    ∃ b ∈ text, isGapByte b = false := by
  by_cases hall : ∀ b ∈ text, isGapByte b = true
  · exact absurd (isBlank_of_gap hall) h
  · obtain ⟨b, hb⟩ := Classical.not_forall.mp hall
    obtain ⟨hmem, hsolid⟩ := Classical.not_imp.mp hb
    exact ⟨b, hmem, Bool.eq_false_iff.mpr hsolid⟩

/-- White space before a program consists of gap bytes. -/
theorem gap_of_isBlank {text : Bytes} (h : isBlank text = true) {rest : List Bytes} {p : Program}
    (hp : Program.ofSource fileName (text ++ feedLines rest) = .ok p) :
    ∀ b ∈ text, isGapByte b = true := by
  refine Classical.not_not.mp fun hgap => ?_
  obtain ⟨d, hd, hdefinitive⟩ := error_of_isBlank_or_isCommand hgap (.inl h) fileName 0
  cases (ofSource_append_of_error hd hdefinitive rest).symm.trans hp

theorem gap_intercalate {lines : List Bytes} (h : Gap (feedLines lines)) :
    Gap ([0x0A].intercalate lines) := by
  cases lines with
  | nil => exact .nil
  | cons line rest =>
    rw [intercalate_cons]
    exact gap_of_cons rfl h

theorem readsOneProgram_of_not_isBlank {r : Repl} (hended : r.ended = false)
    (hpending : r.pending = []) {line : Bytes} (hblank : ¬ isBlank line = true)
    {rest : List Bytes} {p : Program}
    (hp : Program.ofSource fileName (line ++ feedLines rest) = .ok p) :
    ReadsOneProgram r (line :: rest) p.dump := by
  have hextend := extend_of_pending_nil hpending line
  have hsolid := exists_solid_of_not_isBlank hblank
  rw [← hextend] at hsolid hp
  obtain ⟨taken, after, texts, hrest, hgap, hq, hacts, htexts⟩ := acts_program hended hsolid hp
  rw [hextend, ← intercalate_cons] at hq hacts
  refine ⟨[], line :: taken, after, texts, p, congrArg (line :: ·) hrest, ?_, hacts, htexts, hq,
    rfl, gap_intercalate hgap⟩
  rw [List.takeWhile_cons_of_neg hblank]

theorem readsOneProgram {r : Repl} (hended : r.ended = false) (hpending : r.pending = [])
    {line : Bytes} {rest : List Bytes} {p : Program}
    (hp : Program.ofSource fileName (line ++ feedLines rest) = .ok p) :
    ReadsOneProgram r (line :: rest) p.dump := by
  induction rest generalizing line p with
  | nil =>
    refine readsOneProgram_of_not_isBlank hended hpending (fun hblank => ?_) hp
    have hline := gap_of_isBlank hblank hp
    obtain ⟨_, d, hd, _⟩ := error_of_gap (gap_of_forall hline)
    rw [feedLines_nil, List.append_nil] at hp
    cases hp.symm.trans hd
  | cons line' rest ih =>
    by_cases hblank : isBlank line = true
    · have hgap : ∀ b ∈ line ++ [0x0A], isGapByte b = true :=
        List.forall_mem_append.mpr ⟨gap_of_isBlank hblank hp, by simp [isGapByte]⟩
      have hp' : Program.ofSource fileName ((line ++ [0x0A]) ++ (line' ++ feedLines rest)) =
          .ok p := by
        rw [List.append_assoc]
        exact hp
      obtain ⟨f, hf⟩ := Program.ofSource_of_gap (gap_of_forall hgap) hp' fileName 0
      obtain ⟨blanks, taken, after, texts, q, hlines, hblanks, hacts, htexts, hq, hdump, hafter⟩ :=
        ih hf
      have hextend := extend_of_pending_nil hpending line
      have hidle : { r with pending := [] } = r := by
        cases r
        cases hpending
        rfl
      rw [← hidle] at hacts
      have hacts' := acts_cons_of_isBlank hended (hextend.symm ▸ hblank) hacts
      rw [hextend] at hacts'
      refine ⟨line :: blanks, taken, after, texts, q, congrArg (line :: ·) hlines, ?_, hacts',
        htexts, hq, hdump.trans (p.dump_relabel f), hafter⟩
      rw [List.takeWhile_cons_of_pos hblank, ← hblanks]
    · exact readsOneProgram_of_not_isBlank hended hpending hblank hp

/-- The lines of a program are read as one entry: before it the loop takes in the leading blank
lines, the entry parses to the tree of the whole text, and the lines behind it are a gap. -/
theorem lines_of_a_program_are_one_entry (config : Config) (file : String) (source : Bytes)
    (index : Nat) (p : Program) (h : Program.ofSource file source index = .ok p) :
    ReadsOneProgram { config } (source.splitOn 0x0A) p.dump := by
  have hmoved : ∃ f : Relabeling, Program.ofSource fileName source = .ok (p.relabel f) :=
    Program.ofSource_of_gap .nil h fileName 0
  obtain ⟨f, hf⟩ := hmoved
  obtain ⟨line, rest, hlines⟩ := List.exists_cons_of_ne_nil (List.splitOn_ne_nil 0x0A source)
  have hsource : source = line ++ feedLines rest := by
    rw [← intercalate_cons, ← hlines, List.intercalate_splitOn]
  rw [hsource] at hf
  rw [hlines, ← p.dump_relabel f]
  exact readsOneProgram rfl rfl hf

/-- Two blank lines, a program over three lines with a comment across two of them, and a comment
across the last two. -/
theorem lines_of_a_program_are_one_entry_comments :
    let bytes := fun text : String => text.toList.map fun c => c.toNat.toUInt8
    let source := bytes "\n \nprogram p; \x7b begin\n:quit \x7d begin\nend.\n\x7b end.\n\x7d"
    (source.splitOn 0x0A).takeWhile isBlank = [[], bytes " "] ∧
      ∃ p, Program.ofSource "p.pas" source = .ok p ∧
        ReadsOneProgram { config := {} } (source.splitOn 0x0A) p.dump := by
  intro bytes source
  have hok : (Program.ofSource "p.pas" source).isOk = true := by
    decide +kernel
  obtain ⟨p, hp⟩ := Program.exists_ok hok
  exact ⟨by decide +kernel, p, hp, lines_of_a_program_are_one_entry {} "p.pas" source 0 p hp⟩

end Repl

end MiniPascal
