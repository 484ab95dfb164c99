import MiniPascal.Syntax.Dump

/-!
# Symbolic expressions and their texts

A symbolic expression is an atom or a list. Its text has the elements of a list in round brackets,
with single spaces between them. If the atoms are words, which have no blanks and no brackets in
them, the text of an expression tells where it ends and which expression it is.
-/
namespace MiniPascal

inductive SExpr
  | atom (word : String)
  | list (elements : List SExpr)
  deriving Repr, Inhabited

namespace SExpr

mutual

def text : SExpr → String
  | atom word => word
  | list elements => "(" ++ String.intercalate " " (texts elements) ++ ")"

def texts : List SExpr → List String
  | [] => []
  | e :: rest => e.text :: texts rest

end

def headed (head : String) (elements : List SExpr) : SExpr := list (atom head :: elements)

theorem text_headed (head : String) (elements : List SExpr) :
    (headed head elements).text = bracketed head (texts elements) := rfl

theorem headed_inj {head head' : String} {elements elements' : List SExpr}
    (h : headed head elements = headed head' elements') : head = head' ∧ elements = elements' := by
  obtain ⟨hhead, helements⟩ := List.cons.inj (list.inj h)
  exact ⟨atom.inj hhead, helements⟩

theorem texts_append (front back : List SExpr) :
    texts (front ++ back) = texts front ++ texts back := by
  induction front with
  | nil => rfl
  | cons e rest ih => rw [List.cons_append, texts, ih, texts, List.cons_append]

end SExpr

def IsBreak (c : Char) : Prop := c = ' ' ∨ c = '(' ∨ c = ')'

instance : DecidablePred IsBreak := fun c =>
  inferInstanceAs (Decidable (c = ' ' ∨ c = '(' ∨ c = ')'))

def IsWord (s : String) : Prop := s.toList ≠ [] ∧ ∀ c ∈ s.toList, ¬ IsBreak c

-- the characters of the text are tested one by one, not all characters there are
instance : DecidablePred IsWord := fun s =>
  have : Decidable (∀ c ∈ s.toList, ¬ IsBreak c) := List.decidableBAll _ _
  inferInstanceAs (Decidable (s.toList ≠ [] ∧ ∀ c ∈ s.toList, ¬ IsBreak c))

/-- What can stand behind an expression in a list. -/
def EndsWord (text : List Char) : Prop := ∀ c, text.head? = some c → IsBreak c

theorem endsWord_cons {c : Char} {text : List Char} (h : IsBreak c) : EndsWord (c :: text) := by
  intro c' hc
  cases hc
  exact h

theorem endsWord_nil : EndsWord [] := fun _ h => by cases h

/-- The end of a word is seen from the text behind it. -/
theorem word_append_inj {s t : String} (hs : IsWord s) (ht : IsWord t) {u v : List Char}
    (hu : EndsWord u) (hv : EndsWord v) (h : s.toList ++ u = t.toList ++ v) : s = t ∧ u = v := by
  have htake {w : List Char} {r : String} (hr : IsWord r) (hw : EndsWord w) :
      (r.toList ++ w).takeWhile (fun c => decide (¬ IsBreak c)) = r.toList := by
    rw [List.takeWhile_append_of_pos (by simpa using hr.2)]
    cases w with
    | nil => rw [List.takeWhile_nil, List.append_nil]
    | cons c w =>
      rw [List.takeWhile_cons_of_neg (by simpa using hw c rfl), List.append_nil]
  have hword : s.toList = t.toList := by rw [← htake hs hu, h, htake ht hv]
  rw [hword] at h
  exact ⟨String.toList_inj.mp hword, List.append_cancel_left h⟩

namespace SExpr

inductive WellFormed : SExpr → Prop
  | atom {word : String} (h : IsWord word) : WellFormed (.atom word)
  | list {elements : List SExpr} (h : ∀ e ∈ elements, e.WellFormed) : WellFormed (.list elements)

theorem WellFormed.headed {head : String} {elements : List SExpr} (hhead : IsWord head)
    (h : ∀ e ∈ elements, e.WellFormed) : (headed head elements).WellFormed :=
  .list (List.forall_mem_cons.mpr ⟨.atom hhead, h⟩)

def behind (elements : List SExpr) : List Char :=
  elements.flatMap fun e => ' ' :: e.text.toList

theorem toList_intercalate (e : SExpr) (rest : List SExpr) :
    (String.intercalate " " (texts (e :: rest))).toList = e.text.toList ++ behind rest := by
  induction rest generalizing e with
  | nil => simp [texts, behind]
  | cons e' rest ih =>
    rw [texts, texts, String.intercalate_cons_cons, String.toList_append, String.toList_append,
      ← texts, ih]
    simp [behind]

theorem toList_list_nil (u : List Char) : (list []).text.toList ++ u = '(' :: ')' :: u := rfl

theorem toList_list_cons (e : SExpr) (rest : List SExpr) (u : List Char) :
    (list (e :: rest)).text.toList ++ u =
      '(' :: (e.text.toList ++ (behind rest ++ ')' :: u)) := by
  rw [text, String.toList_append, String.toList_append, toList_intercalate]
  simp

theorem behind_cons (e : SExpr) (rest : List SExpr) (u : List Char) :
    behind (e :: rest) ++ u = ' ' :: (e.text.toList ++ (behind rest ++ u)) := by
  simp [behind]

theorem endsWord_behind (rest : List SExpr) (u : List Char) :
    EndsWord (behind rest ++ ')' :: u) := by
  cases rest with
  | nil => exact endsWord_cons (.inr (.inr rfl))
  | cons e rest => exact endsWord_cons (.inl rfl)

/-- A text begins with a bracket or with a character of a word. -/
theorem WellFormed.head_ne {e : SExpr} (h : e.WellFormed) (u v : List Char) :
    e.text.toList ++ u ≠ ')' :: v := by
  cases h with
  | @atom word hword =>
    obtain ⟨hne, hplain⟩ := hword
    rw [text]
    cases hword : word.toList with
    | nil => exact absurd hword hne
    | cons c cs =>
      rw [hword] at hplain
      intro heq
      cases heq
      exact hplain ')' List.mem_cons_self (.inr (.inr rfl))
  | list =>
    rw [text]
    simp

theorem word_ne_list {word : String} (h : IsWord word) (elements : List SExpr) (u v : List Char) :
    word.toList ++ u ≠ (list elements).text.toList ++ v := by
  obtain ⟨hne, hplain⟩ := h
  cases hword : word.toList with
  | nil => exact absurd hword hne
  | cons c cs =>
    rw [hword] at hplain
    intro heq
    rw [text] at heq
    simp at heq
    exact hplain c List.mem_cons_self (.inr (.inl heq.1))

mutual

/-- The text of an expression determines it, and where it ends in a longer text. -/
theorem text_append_inj : ∀ a b : SExpr, a.WellFormed → b.WellFormed → ∀ {u v : List Char},
    EndsWord u → EndsWord v → a.text.toList ++ u = b.text.toList ++ v → a = b ∧ u = v
  | .atom s, .atom t, .atom hs, .atom ht, u, v, hu, hv, h => by
    obtain ⟨rfl, rfl⟩ := word_append_inj hs ht hu hv h
    exact ⟨rfl, rfl⟩
  | .atom s, .list elements, .atom hs, _, u, v, _, _, h => absurd h (word_ne_list hs elements u v)
  | .list elements, .atom t, _, .atom ht, u, v, _, _, h =>
    absurd h.symm (word_ne_list ht elements v u)
  | .list [], .list [], _, _, u, v, _, _, h => ⟨rfl, List.append_cancel_left h⟩
  | .list [], .list (e :: rest), _, .list hall, u, v, _, _, h => by
    rw [toList_list_nil, toList_list_cons] at h
    exact absurd (List.cons.inj h).2.symm ((hall e List.mem_cons_self).head_ne _ _)
  | .list (e :: rest), .list [], .list hall, _, u, v, _, _, h => by
    rw [toList_list_nil, toList_list_cons] at h
    exact absurd (List.cons.inj h).2 ((hall e List.mem_cons_self).head_ne _ _)
  | .list (e :: rest), .list (e' :: rest'), .list hall, .list hall', u, v, _, _, h => by
    rw [toList_list_cons, toList_list_cons] at h
    have hbehind : behind (e :: rest) ++ ')' :: u = behind (e' :: rest') ++ ')' :: v := by
      rw [behind_cons, behind_cons, (List.cons.inj h).2]
    obtain ⟨heq, huv⟩ := behind_append_inj (e :: rest) (e' :: rest') hall hall' hbehind
    exact ⟨congrArg list heq, huv⟩

theorem behind_append_inj : ∀ front back : List SExpr, (∀ e ∈ front, e.WellFormed) →
    (∀ e ∈ back, e.WellFormed) → ∀ {u v : List Char},
      behind front ++ ')' :: u = behind back ++ ')' :: v → front = back ∧ u = v
  | [], [], _, _, u, v, h => ⟨rfl, (List.cons.inj h).2⟩
  | [], e :: rest, _, _, u, v, h => by cases h
  | e :: rest, [], _, _, u, v, h => by cases h
  | e :: rest, e' :: rest', hall, hall', u, v, h => by
    obtain ⟨he, hrest⟩ := List.forall_mem_cons.mp hall
    obtain ⟨he', hrest'⟩ := List.forall_mem_cons.mp hall'
    rw [behind_cons, behind_cons] at h
    obtain ⟨rfl, hbehind⟩ := text_append_inj e e' he he' (endsWord_behind rest u)
      (endsWord_behind rest' v) (List.cons.inj h).2
    obtain ⟨rfl, rfl⟩ := behind_append_inj rest rest' hrest hrest' hbehind
    exact ⟨rfl, rfl⟩

end

/-- Different expressions have different texts. -/
theorem text_inj {a b : SExpr} (ha : a.WellFormed) (hb : b.WellFormed) (h : a.text = b.text) :
    a = b :=
  (text_append_inj a b ha hb endsWord_nil endsWord_nil
    (by rw [h] : a.text.toList ++ [] = b.text.toList ++ [])).1

end SExpr

end MiniPascal
