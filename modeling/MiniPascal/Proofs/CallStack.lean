import MiniPascal.CallStack

/-!
# Records over time

Records are only ever added, and of a record that exists only the values of its variables change.
What is found along static links therefore stays found.
-/
namespace MiniPascal.CallStack

variable {s s' s'' : CallStack} {id j : Nat} {record : Record} {level : Int}

/-- Every record is still there, the values of its variables apart. -/
def Extends (s s' : CallStack) : Prop :=
  ∀ id record, s.get? id = some record → ∃ members, s'.get? id = some { record with members }

theorem Extends.refl (s : CallStack) : s.Extends s :=
  fun _ record h => ⟨record.members, h⟩

theorem Extends.trans (h : s.Extends s') (h' : s'.Extends s'') : s.Extends s'' := by
  intro id record hr
  obtain ⟨members, hm⟩ := h id record hr
  obtain ⟨members', hm'⟩ := h' id _ hm
  exact ⟨members', hm'⟩

theorem lt_nextId_of_get? (h : s.get? id = some record) : id < s.nextId :=
  (Array.getElem?_eq_some_iff.mp h).1

theorem Extends.nextId_le (h : s.Extends s') : s.nextId ≤ s'.nextId := by
  refine Nat.le_of_not_lt fun hlt => ?_
  obtain ⟨members, hm⟩ := h s'.nextId _ (Array.getElem?_eq_getElem hlt)
  exact Nat.lt_irrefl _ (lt_nextId_of_get? hm)

theorem get?_enter (s : CallStack) (record : Record) (j : Nat) :
    (s.enter record).get? j = if j = s.nextId then some record else s.get? j :=
  Array.getElem?_push

theorem get?_enter_self (s : CallStack) (record : Record) :
    (s.enter record).get? s.nextId = some record := by
  rw [get?_enter, if_pos rfl]

theorem get?_enter_of_lt (record : Record) (h : j < s.nextId) :
    (s.enter record).get? j = s.get? j := by
  rw [get?_enter, if_neg (Nat.ne_of_lt h)]

theorem get?_set (s : CallStack) (id : Nat) (name : String) (value : Value) (j : Nat) :
    (s.set id name value).get? j =
      if id = j then (s.get? j).map fun r => r.set name value else s.get? j :=
  Array.getElem?_modify

theorem extends_enter (s : CallStack) (record : Record) : s.Extends (s.enter record) := by
  intro j old h
  rw [get?_enter_of_lt record (lt_nextId_of_get? h), h]
  exact ⟨old.members, rfl⟩

theorem extends_set (s : CallStack) (id : Nat) (name : String) (value : Value) :
    s.Extends (s.set id name value) := by
  intro j old h
  rw [get?_set, h]
  split
  · exact ⟨old.members.set name value, rfl⟩
  · exact ⟨old.members, rfl⟩

theorem enclosing_self (h : s.get? id = some record) (hl : record.level = level) :
    s.enclosing id level = some id := by
  rw [enclosing, h]
  exact if_pos hl

theorem enclosing_link (h : s.get? id = some record) (hl : record.level ≠ level)
    (hlink : record.link = some j) (hj : j < id) :
    s.enclosing id level = s.enclosing j level := by
  rw [enclosing, h]
  simp only [if_neg hl, hlink, if_pos hj]

theorem Extends.enclosing (h : s.Extends s') (hid : s.enclosing id level = some j) :
    s'.enclosing id level = some j := by
  fun_induction CallStack.enclosing s id level with
  | case1 id hnone => cases hid
  | case2 id r hr hl =>
    cases hid
    obtain ⟨members, hm⟩ := h _ r hr
    exact enclosing_self hm hl
  | case3 id r hr hl hlink => cases hid
  | case4 id r hr hl outer hlink hlt ih =>
    obtain ⟨members, hm⟩ := h id r hr
    rw [enclosing_link hm hl hlink hlt]
    exact ih hid
  | case5 id r hr hl outer hlink hlt => cases hid

theorem lt_nextId_of_enclosing (h : s.enclosing id level = some j) : j < s.nextId := by
  fun_induction CallStack.enclosing s id level with
  | case1 id hnone => cases h
  | case2 id r hr hl =>
    cases h
    exact lt_nextId_of_get? hr
  | case3 id r hr hl hlink => cases h
  | case4 id r hr hl outer hlink hlt ih => exact ih h
  | case5 id r hr hl outer hlink hlt => cases h

def LinksBack (s : CallStack) : Prop :=
  ∀ id record outer, s.get? id = some record → record.link = some outer → outer < id

theorem LinksBack.set (h : s.LinksBack) (id : Nat) (name : String) (value : Value) :
    (s.set id name value).LinksBack := by
  intro j record outer hj hlink
  rw [get?_set] at hj
  split at hj
  · obtain ⟨old, hold, rfl⟩ := Option.map_eq_some_iff.mp hj
    exact h j old outer hold hlink
  · exact h j record outer hj hlink

theorem LinksBack.enter (h : s.LinksBack)
    (hlink : ∀ outer, record.link = some outer → outer < s.nextId) :
    (s.enter record).LinksBack := by
  intro j found outer hj houter
  rw [get?_enter] at hj
  split at hj
  · next heq =>
    cases hj
    exact heq ▸ hlink outer houter
  · exact h j found outer hj houter

end MiniPascal.CallStack
