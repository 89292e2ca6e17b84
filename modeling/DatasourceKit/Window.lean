/-
  Day windows (`window.py`).

  * `Date`: `datetime.date`, which has a first and a last value;
  * `oldestFirst`, `newestFirst`: the loops of `split_range_into_days`; each computes the day
    after the window it has yielded before it looks at the bound;
  * `splitRangeIntoDays`: what the generator yields, and how it ends;
  * `split_exact_iff`: it covers the range and ends unless the last day it yields is at the end
    of the calendar.
-/
import Mathlib.Order.Interval.Finset.Nat
import DatasourceKit.Value

namespace DatasourceKit

/-! ## Dates -/

/-- `date.max.toordinal()`. -/
def maxOrdinal : ℕ := 3652059

/-- `datetime.date`, by its ordinal, by which dates compare and move. -/
@[ext]
structure Date where
  ordinal : ℕ
  pos : 1 ≤ ordinal
  le_max : ordinal ≤ maxOrdinal
deriving DecidableEq

namespace Date

instance : LinearOrder Date := LinearOrder.lift' Date.ordinal fun _ _ h => Date.ext h

theorem le_iff {d e : Date} : d ≤ e ↔ d.ordinal ≤ e.ordinal := Iff.rfl

/-- `date.min`. -/
def min : Date := ⟨1, by decide, by decide⟩

/-- `date.max`. -/
def max : Date := ⟨maxOrdinal, by decide, by decide⟩

/-- `d + timedelta(days=n)`. -/
def addDays (d : Date) (n : ℤ) : Except Exc Date :=
  if h : 1 ≤ d.ordinal + n ∧ d.ordinal + n ≤ maxOrdinal then
    .ok ⟨(d.ordinal + n).toNat, by omega, by omega⟩
  else .error .overflow

theorem addDays_ok {d e : Date} {n : ℤ} (h : d.addDays n = .ok e) :
    (e.ordinal : ℤ) = d.ordinal + n := by
  rw [addDays] at h
  split_ifs at h with hin
  cases h
  exact Int.toNat_of_nonneg (by omega)

theorem addDays_error {d : Date} {n : ℤ} {e : Exc} (h : d.addDays n = .error e) :
    e = .overflow ∧ ¬(1 ≤ d.ordinal + n ∧ d.ordinal + n ≤ maxOrdinal) := by
  rw [addDays] at h
  split_ifs at h with hin
  cases h
  exact ⟨rfl, hin⟩

end Date

/-! ## The generator -/

inductive WindowOrder where
  | oldestFirst
  | newestFirst
deriving DecidableEq

/-- `WindowOrder(order)`. -/
def WindowOrder.ofValue : String → Option WindowOrder
  | "oldest_first" => some .oldestFirst
  | "newest_first" => some .newestFirst
  | _ => none

/-- `order.value`. -/
def WindowOrder.value : WindowOrder → String
  | .oldestFirst => "oldest_first"
  | .newestFirst => "newest_first"

@[simp] theorem WindowOrder.ofValue_value (order : WindowOrder) :
    ofValue order.value = some order := by
  cases order <;> rfl

@[ext]
structure DayWindow where
  start : Date
  last : Date
deriving DecidableEq

/-- What a generator yields until it ends, and the exception with which it ends. -/
@[ext]
structure Yielded where
  windows : List DayWindow
  raised : Option Exc

/-- The window of the day `d`, and then what follows it. -/
def Yielded.after (d : Date) (rest : Yielded) : Yielded := ⟨⟨d, d⟩ :: rest.windows, rest.raised⟩

/-- The loop from `current` up to `last`. -/
def oldestFirst (last current : Date) : Yielded :=
  if current ≤ last then
    match _hnext : current.addDays 1 with
    | .ok next => (oldestFirst last next).after current
    | .error e => Yielded.after current ⟨[], some e⟩
  else ⟨[], none⟩
termination_by last.ordinal + 1 - current.ordinal
decreasing_by
  have hle := Date.le_iff.1 ‹current ≤ last›
  have hnext' := Date.addDays_ok _hnext
  omega

/-- The loop from `current` down to `start`. -/
def newestFirst (start current : Date) : Yielded :=
  if start ≤ current then
    match _hnext : current.addDays (-1) with
    | .ok next => (newestFirst start next).after current
    | .error e => Yielded.after current ⟨[], some e⟩
  else ⟨[], none⟩
termination_by current.ordinal
decreasing_by
  have hnext' := Date.addDays_ok _hnext
  omega

/-- `split_range_into_days`. -/
def splitRangeIntoDays (start last : Date) (order : String) : Yielded :=
  match WindowOrder.ofValue order with
  | none => ⟨[], some (.valueError "order must be one of: oldest_first, newest_first")⟩
  | some direction =>
    if last < start then ⟨[], none⟩
    else match direction with
      | .newestFirst => newestFirst start last
      | .oldestFirst => oldestFirst last start

/-! ## What it yields -/

/-- The windows are one-day windows, of exactly the days from `start` to `last`. -/
structure CoversDays (start last : Date) (windows : List DayWindow) : Prop where
  oneDay : ∀ w ∈ windows, w.start = w.last
  days : ∀ d, d ∈ windows.map (·.start) ↔ start ≤ d ∧ d ≤ last

theorem CoversDays.nil {start last : Date} (h : last < start) : CoversDays start last [] where
  oneDay w hw := by cases hw
  days d := by
    simp only [List.map_nil, List.not_mem_nil, false_iff, not_and]
    exact fun hd => not_le.2 (h.trans_le hd)

/-- A range, and the day before it. -/
theorem CoversDays.before {current next last : Date} {windows : List DayWindow}
    (h : CoversDays next last windows) (hle : current ≤ last)
    (hnext : next.ordinal = current.ordinal + 1) :
    CoversDays current last (⟨current, current⟩ :: windows) where
  oneDay w hw := by
    rcases List.mem_cons.1 hw with rfl | hw
    · rfl
    · exact h.oneDay w hw
  days d := by
    rw [List.map_cons, List.mem_cons, h.days, Date.ext_iff]
    simp only [Date.le_iff] at hle ⊢
    omega

/-- A range, and the day after it. -/
theorem CoversDays.after {start current previous : Date} {windows : List DayWindow}
    (h : CoversDays start previous windows) (hle : start ≤ current)
    (hprevious : current.ordinal = previous.ordinal + 1) :
    CoversDays start current (⟨current, current⟩ :: windows) where
  oneDay w hw := by
    rcases List.mem_cons.1 hw with rfl | hw
    · rfl
    · exact h.oneDay w hw
  days d := by
    rw [List.map_cons, List.mem_cons, h.days, Date.ext_iff]
    simp only [Date.le_iff] at hle ⊢
    omega

/-- One day, on its own. -/
theorem CoversDays.single (d : Date) : CoversDays d d [⟨d, d⟩] where
  oneDay w hw := by rw [List.mem_singleton.1 hw]
  days e := by simp [le_antisymm_iff, and_comm]

theorem CoversDays.start_mem {start last : Date} {windows : List DayWindow} {w : DayWindow}
    (h : CoversDays start last windows) (hw : w ∈ windows) : start ≤ w.start ∧ w.start ≤ last :=
  (h.days _).1 (List.mem_map_of_mem hw)

/-- **The loop from the oldest day on**: it always yields the whole range, and it is cut off by
    the end of the calendar. -/
theorem oldestFirst_spec (last current : Date) :
    CoversDays current last (oldestFirst last current).windows ∧
    (oldestFirst last current).windows.Pairwise (·.start < ·.start) ∧
    (oldestFirst last current).raised = if current ≤ last ∧ last = .max then
    some .overflow else none := by
  fun_induction oldestFirst last current with
  | case1 current hle next hnext ih =>
    obtain ⟨hcovers, hsorted, hraised⟩ := ih
    have hstep : next.ordinal = current.ordinal + 1 := by
      have := Date.addDays_ok hnext
      omega
    refine ⟨hcovers.before hle hstep, List.pairwise_cons.2 ⟨fun w hw => ?_, hsorted⟩, ?_⟩
    · have hw' := Date.le_iff.1 (hcovers.start_mem hw).1
      show current.ordinal < w.start.ordinal
      omega
    · show (oldestFirst last next).raised = _
      rw [hraised]
      refine if_congr ⟨fun h => ⟨hle, h.2⟩, fun h => ⟨?_, h.2⟩⟩ rfl rfl
      rw [h.2]
      exact Date.le_iff.2 next.le_max
  | case2 current hle e he =>
    obtain ⟨rfl, hout⟩ := Date.addDays_error he
    have hmax : current = .max := by
      have := current.le_max
      rw [Date.ext_iff]
      show current.ordinal = maxOrdinal
      omega
    have hlast : last = .max := le_antisymm (Date.le_iff.2 last.le_max) (hmax ▸ hle)
    subst hmax
    subst hlast
    exact ⟨.single _, List.pairwise_singleton _ _, by simp [Yielded.after]⟩
  | case3 current hnot => exact ⟨.nil (not_le.1 hnot), .nil, by simp [hnot]⟩

/-- **The loop from the newest day back**: likewise. -/
theorem newestFirst_spec (start current : Date) :
    CoversDays start current (newestFirst start current).windows ∧
    (newestFirst start current).windows.Pairwise (·.start > ·.start) ∧
    (newestFirst start current).raised = if start ≤ current ∧ start = .min then
    some .overflow else none := by
  fun_induction newestFirst start current with
  | case1 current hle previous hprevious ih =>
    obtain ⟨hcovers, hsorted, hraised⟩ := ih
    have hstep : current.ordinal = previous.ordinal + 1 := by
      have := Date.addDays_ok hprevious
      omega
    refine ⟨hcovers.after hle hstep, List.pairwise_cons.2 ⟨fun w hw => ?_, hsorted⟩, ?_⟩
    · have hw' := Date.le_iff.1 (hcovers.start_mem hw).2
      show w.start.ordinal < current.ordinal
      omega
    · show (newestFirst start previous).raised = _
      rw [hraised]
      refine if_congr ⟨fun h => ⟨hle, h.2⟩, fun h => ⟨?_, h.2⟩⟩ rfl rfl
      rw [h.2]
      exact Date.le_iff.2 previous.pos
  | case2 current hle e he =>
    obtain ⟨rfl, hout⟩ := Date.addDays_error he
    have hmin : current = .min := by
      have := current.pos
      have := current.le_max
      rw [Date.ext_iff]
      show current.ordinal = 1
      omega
    have hstart : start = .min := le_antisymm (hmin ▸ hle) (Date.le_iff.2 start.pos)
    subst hmin
    subst hstart
    exact ⟨.single _, List.pairwise_singleton _ _, by simp [Yielded.after]⟩
  | case3 current hnot => exact ⟨.nil (not_le.1 hnot), .nil, by simp [hnot]⟩

/-- The windows of a range are determined by their order. -/
theorem CoversDays.eq_of_sorted {start last : Date} {l m : List DayWindow}
    (hl : CoversDays start last l) (hm : CoversDays start last m)
    (hl' : l.Pairwise (·.start < ·.start)) (hm' : m.Pairwise (·.start < ·.start)) : l = m := by
  have hmem : ∀ {l m : List DayWindow}, CoversDays start last l →
      CoversDays start last m → ∀ w ∈ l, w ∈ m := by
    intro l m hl hm w hw
    obtain ⟨w', hw', heq⟩ := List.mem_map.1 ((hm.days w.start).2 (hl.start_mem hw))
    have hww : w' = w := DayWindow.ext heq (by rw [← hm.oneDay w' hw', ← hl.oneDay w hw, heq])
    exact hww ▸ hw'
  have hnodup : ∀ {l : List DayWindow}, l.Pairwise (·.start < ·.start) → l.Nodup := by
    refine fun h => h.imp ?_
    rintro a b hlt rfl
    exact lt_irrefl _ hlt
  have hperm : l.Perm m := (List.perm_ext_iff_of_nodup (hnodup hl') (hnodup hm')).2 fun w =>
    ⟨hmem hl hm w, hmem hm hl w⟩
  exact hperm.eq_of_pairwise (fun a b _ _ hab hba => absurd (hab.trans hba) (lt_irrefl _)) hl' hm'

/-! ## The range -/

/-- The windows with the oldest day first. -/
def WindowOrder.ascending : WindowOrder → List DayWindow → List DayWindow
  | .oldestFirst, windows => windows
  | .newestFirst, windows => windows.reverse

/-- The generator yields the range in its order, and ends. -/
structure SplitsExactly (order : WindowOrder) (start last : Date) (y : Yielded) : Prop where
  ends : y.raised = none
  covers : CoversDays start last y.windows
  ordered : (order.ascending y.windows).Pairwise (·.start < ·.start)

/-- There is a day after the last one that the loop yields. -/
def HasRoom (start last : Date) : WindowOrder → Prop
  | .oldestFirst => last ≠ .max
  | .newestFirst => start ≠ .min

theorem split_inverted {start last : Date} (order : WindowOrder) (h : last < start) :
    splitRangeIntoDays start last order.value = ⟨[], none⟩ := by
  rw [splitRangeIntoDays, WindowOrder.ofValue_value]
  exact if_pos h

theorem split_oldest (start last : Date) :
    splitRangeIntoDays start last WindowOrder.oldestFirst.value = oldestFirst last start := by
  rw [splitRangeIntoDays, WindowOrder.ofValue_value]
  show (if last < start then _ else _) = _
  split_ifs with h
  · rw [oldestFirst, if_neg (not_le.2 h)]
  · rfl

theorem split_newest (start last : Date) :
    splitRangeIntoDays start last WindowOrder.newestFirst.value = newestFirst start last := by
  rw [splitRangeIntoDays, WindowOrder.ofValue_value]
  show (if last < start then _ else _) = _
  split_ifs with h
  · rw [newestFirst, if_neg (not_le.2 h)]
  · rfl

/-- **A range is split exactly**, the newest day first in the reverse order, if it is empty or
    the last day that is yielded is not at the end of the calendar; and else it is not. -/
theorem split_exact_iff (start last : Date) :
    (last < start → ∀ order : WindowOrder,
      (splitRangeIntoDays start last order.value).windows = []) ∧
    (splitRangeIntoDays start last WindowOrder.newestFirst.value).windows =
      (splitRangeIntoDays start last WindowOrder.oldestFirst.value).windows.reverse ∧
    ∀ order, SplitsExactly order start last (splitRangeIntoDays start last order.value) ↔
      (start ≤ last → HasRoom start last order) := by
  obtain ⟨hold, holdSorted, holdRaised⟩ := oldestFirst_spec last start
  obtain ⟨hnew, hnewSorted, hnewRaised⟩ := newestFirst_spec start last
  have hreversed : (newestFirst start last).windows.reverse.Pairwise (·.start < ·.start) :=
    List.pairwise_reverse.2 hnewSorted
  have hcovers : CoversDays start last (newestFirst start last).windows.reverse :=
    ⟨fun w hw => hnew.oneDay w (List.mem_reverse.1 hw), fun d => by
      rw [List.map_reverse, List.mem_reverse, hnew.days]⟩
  refine ⟨fun h order => by rw [split_inverted order h], ?_, fun order => ?_⟩
  · rw [split_oldest, split_newest, ← hcovers.eq_of_sorted hold hreversed holdSorted,
      List.reverse_reverse]
  · constructor
    · intro h hle
      have hends := h.ends
      cases order with
      | oldestFirst =>
        rw [split_oldest, holdRaised] at hends
        intro hmax
        rw [if_pos ⟨hle, hmax⟩] at hends
        cases hends
      | newestFirst =>
        rw [split_newest, hnewRaised] at hends
        intro hmin
        rw [if_pos ⟨hle, hmin⟩] at hends
        cases hends
    · intro h
      cases order with
      | oldestFirst =>
        rw [split_oldest]
        refine ⟨?_, hold, holdSorted⟩
        rw [holdRaised, if_neg fun hmax => h hmax.1 hmax.2]
      | newestFirst =>
        rw [split_newest]
        refine ⟨?_, hnew, hreversed⟩
        rw [hnewRaised, if_neg fun hmin => h hmin.1 hmin.2]

/-- Iterating over the last day of the calendar raises after its window. -/
theorem split_last_day : ¬SplitsExactly .oldestFirst .max .max
    (splitRangeIntoDays .max .max WindowOrder.oldestFirst.value) ∧
    (splitRangeIntoDays .max .max WindowOrder.oldestFirst.value) =
    ⟨[⟨.max, .max⟩], some .overflow⟩ := by
  have hrun : oldestFirst .max .max = ⟨[⟨.max, .max⟩], some .overflow⟩ := by
    have hnext : Date.max.addDays 1 = .error .overflow := by decide
    rw [oldestFirst, if_pos le_rfl]
    split
    · next h => rw [hnext] at h; cases h
    · next h => rw [hnext] at h; cases h; rfl
  rw [split_oldest, hrun]
  exact ⟨fun h => (nomatch h.ends), rfl⟩

end DatasourceKit
