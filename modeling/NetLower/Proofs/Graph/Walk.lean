/-
The depth-first walk over the links between stages, step by step.  Whatever the links
are, the walk leaves each stage once; where the links go one way it also leaves every
reader of a stage before the stage itself, so that the order it finds is accepted.
-/
import Mathlib.Data.List.Nodup
import Mathlib.Logic.Relation
import NetLower.Graph.Order

namespace NetLower

namespace Marks

theorem has_mark {m : Marks} {k j : Nat} : (m.mark k).has j = true ↔ j = k ∨ m.has j = true := by
  simp only [has, mark, Array.getD_eq_getD_getElem?, Array.getElem?_setIfInBounds]
  by_cases hjk : k = j
  · subst hjk
    by_cases hk : k < m.flags.size <;> simp [hk]
  · have : ¬ j = k := fun h => hjk h.symm
    simp [hjk, this]

theorem has_none {n k : Nat} : (none n).has k = true ↔ n ≤ k := by
  simp only [has, none, Array.getD_eq_getD_getElem?, Array.getElem?_replicate]
  split <;> simp <;> omega

end Marks

namespace StageLinks

variable {l : StageLinks}

/-- The links are those between stages that take part, seen alike from both ends. -/
structure Proper (l : StageLinks) : Prop where
  nodup : l.stages.Nodup
  lt_size : ∀ k ∈ l.stages, k < l.readers.size
  reader : ∀ k r, r ∈ l.readersOf k → r ∈ l.stages
  writer : ∀ k r, r ∈ l.readersOf k → k ∈ l.stages
  mirror : ∀ k r, r ∈ l.readersOf k ↔ k ∈ l.writersOf r

/-- One step of the walk: start at a stage, enter a stage with its readers above it, pass by a
stage that was left already, or leave a stage. -/
inductive Step (l : StageLinks) : Walk → Walk → Prop
  | start {reached left order k} : k ∈ l.stages →
    Step l ⟨reached, left, [], order⟩ ⟨reached, left, [k], order⟩
  | enter {reached left order top rest} : reached.has top = false → top ∉ l.readersOf top →
    Step l ⟨reached, left, top :: rest, order⟩
      ⟨reached.mark top, left,
        ((l.readersOf top).filter fun k => !(reached.mark top).has k).reverse ++ top :: rest, order⟩
  | skip {reached left order top rest} : reached.has top = true → left.has top = true →
    Step l ⟨reached, left, top :: rest, order⟩ ⟨reached, left, rest, order⟩
  | leave {reached left order top rest} : reached.has top = true → left.has top = false →
    Step l ⟨reached, left, top :: rest, order⟩ ⟨reached, left.mark top, rest, top :: order⟩

/-- Any number of steps. -/
abbrev Steps (l : StageLinks) : Walk → Walk → Prop := Relation.ReflTransGen l.Step

theorem Step.reached_mono {w w' : Walk} (h : l.Step w w') {k : Nat} (hk : w.reached.has k = true) :
    w'.reached.has k = true := by
  cases h with
  | start _ | skip _ _ | leave _ _ => exact hk
  | enter _ _ => exact Marks.has_mark.2 (.inr hk)

theorem Steps.reached_mono {w w' : Walk} (h : l.Steps w w') {k : Nat} (hk : w.reached.has k = true) :
    w'.reached.has k = true := by
  induction h with
  | refl => exact hk
  | tail _ h ih => exact h.reached_mono ih

theorem Step.reached_or_mem {w w' : Walk} (h : l.Step w w') {k : Nat} (hk : k ∈ w.stack) :
    w'.reached.has k = true ∨ k ∈ w'.stack := by
  cases h with
  | start _ => simp at hk
  | enter _ _ => exact .inr (List.mem_append_right _ hk)
  | skip htop _ | leave htop _ =>
    rcases List.mem_cons.1 hk with rfl | hk
    · exact .inl htop
    · exact .inr hk

/-- What is under way stays so until it is reached. -/
theorem Steps.reached_or_mem {w w' : Walk} (h : l.Steps w w') {k : Nat} (hk : k ∈ w.stack) :
    w'.reached.has k = true ∨ k ∈ w'.stack := by
  induction h with
  | refl => exact .inr hk
  | tail _ h ih =>
    rcases ih with hreached | hmem
    · exact .inl (h.reached_mono hreached)
    · exact h.reached_or_mem hmem

/-- A walk gets to its end or to a stage that reads what it writes. -/
theorem walk_steps (w : Walk) :
    (∃ w', l.walk w = .ok w' ∧ l.Steps w w' ∧ w'.stack = []) ∨
      ∃ top, l.walk w = .error top ∧ top ∈ l.readersOf top := by
  fun_induction walk l w with
  | case1 reached left order => exact .inl ⟨_, rfl, .refl, rfl⟩
  | case2 reached left top rest order _ hself => exact .inr ⟨top, rfl, hself⟩
  | case3 reached left top rest order hreached hself reached' next ih =>
    rcases ih with ⟨w', hw, hsteps, hstack⟩ | ⟨t, hw, ht⟩
    · exact .inl ⟨w', hw, .head (.enter hreached hself) hsteps, hstack⟩
    · exact .inr ⟨t, hw, ht⟩
  | case4 reached left top rest order hreached hleft ih =>
    rcases ih with ⟨w', hw, hsteps, hstack⟩ | ⟨t, hw, ht⟩
    · exact .inl ⟨w', hw, .head (.skip (by simpa using hreached) hleft) hsteps, hstack⟩
    · exact .inr ⟨t, hw, ht⟩
  | case5 reached left top rest order hreached hleft ih =>
    rcases ih with ⟨w', hw, hsteps, hstack⟩ | ⟨t, hw, ht⟩
    · exact .inl ⟨w', hw, .head (.leave (by simpa using hreached) (by simpa using hleft)) hsteps, hstack⟩
    · exact .inr ⟨t, hw, ht⟩

theorem walkAll_steps : ∀ (ks : List Nat) (w : Walk), (∀ k ∈ ks, k ∈ l.stages) → w.stack = [] →
    (∃ w', l.walkAll ks w = .ok w' ∧ l.Steps w w' ∧ w'.stack = [] ∧ ∀ k ∈ ks, w'.reached.has k = true) ∨
      ∃ top, l.walkAll ks w = .error top ∧ top ∈ l.readersOf top
  | [], w, _, hstack => .inl ⟨w, rfl, .refl, hstack, by simp⟩
  | k :: ks, w, hks, hstack => by
    rw [walkAll]
    split
    next hk =>
      rcases walkAll_steps ks w (fun k hk => hks k (by simp [hk])) hstack with
        ⟨w', hw, hsteps, hstack', hall⟩ | herror
      · refine .inl ⟨w', hw, hsteps, hstack', fun j hj => ?_⟩
        rcases List.mem_cons.1 hj with rfl | hj
        · exact hsteps.reached_mono hk
        · exact hall j hj
      · exact .inr herror
    next hk =>
      have hstart : l.Step w { w with stack := [k] } := by
        obtain ⟨reached, left, stack, order⟩ := w
        subst hstack
        exact .start (hks k (by simp))
      rcases walk_steps { w with stack := [k] } with ⟨w₁, hw₁, hsteps₁, hstack₁⟩ | ⟨top, hw₁, htop⟩
      · rcases walkAll_steps ks w₁ (fun k hk => hks k (by simp [hk])) hstack₁ with
          ⟨w', hw, hsteps, hstack', hall⟩ | ⟨top, hw, htop⟩
        · refine .inl ⟨w', by simp [hw₁, hw, bind, Except.bind], (hsteps₁.head hstart).trans hsteps, hstack',
            fun j hj => ?_⟩
          rcases List.mem_cons.1 hj with rfl | hj
          · have := hsteps₁.reached_or_mem (List.mem_singleton_self j)
            simp only [hstack₁, List.not_mem_nil, or_false] at this
            exact hsteps.reached_mono this
          · exact hall j hj
        · exact .inr ⟨top, by simp [hw₁, hw, bind, Except.bind], htop⟩
      · exact .inr ⟨top, by simp [hw₁, bind, Except.bind], htop⟩

/-! ## Every stage is left once -/

/-- What holds at every point of a walk: the order lists the stages that were left, each once, and
a stage that was reached but not left is under way. -/
structure Tidy (l : StageLinks) (w : Walk) : Prop where
  stack_mem : ∀ k ∈ w.stack, k ∈ l.stages
  order_mem : ∀ k ∈ w.order, k ∈ l.stages
  nodup : w.order.Nodup
  left_iff : ∀ k ∈ l.stages, w.left.has k = true ↔ k ∈ w.order
  under_way : ∀ k ∈ l.stages, w.reached.has k = true → k ∉ w.order → k ∈ w.stack
  loopless : ∀ k ∈ l.stages, w.reached.has k = true → k ∉ l.readersOf k

theorem Tidy.step (hl : l.Proper) {w w' : Walk} (h : l.Step w w') (t : l.Tidy w) : l.Tidy w' := by
  cases h with
  | start hk =>
    refine { t with stack_mem := fun j hj => List.mem_singleton.1 hj ▸ hk, under_way := fun j hj hr ho => ?_ }
    exact absurd (t.under_way j hj hr ho) List.not_mem_nil
  | @enter reached left order top rest htop hself =>
    refine { t with
      stack_mem := fun j hj => ?_, under_way := fun j hj hr ho => ?_, loopless := fun j hj hr => ?_ }
    · rcases List.mem_append.1 hj with hj | hj
      · exact hl.reader top j (List.mem_filter.1 (List.mem_reverse.1 hj)).1
      · exact t.stack_mem j hj
    · rcases Marks.has_mark.1 hr with rfl | hr
      · simp
      · exact List.mem_append_right _ (t.under_way j hj hr ho)
    · rcases Marks.has_mark.1 hr with rfl | hr
      · exact hself
      · exact t.loopless j hj hr
  | @skip reached left order top rest _ htop =>
    have hmem := t.stack_mem top (by simp)
    refine { t with stack_mem := fun j hj => t.stack_mem j (by simp [hj]), under_way := fun j hj hr ho => ?_ }
    rcases List.mem_cons.1 (t.under_way j hj hr ho) with rfl | hj'
    · exact absurd ((t.left_iff j hmem).1 htop) ho
    · exact hj'
  | @leave reached left order top rest htop hleft =>
    have hmem := t.stack_mem top (by simp)
    have hnot : top ∉ order := fun ho => by
      rw [(t.left_iff top hmem).2 ho] at hleft
      cases hleft
    refine ⟨fun j hj => t.stack_mem j (by simp [hj]), fun j hj => ?_, List.nodup_cons.2 ⟨hnot, t.nodup⟩,
      fun j hj => ?_, fun j hj hr ho => ?_, t.loopless⟩
    · rcases List.mem_cons.1 hj with rfl | hj
      · exact hmem
      · exact t.order_mem j hj
    · rw [Marks.has_mark, List.mem_cons, t.left_iff j hj]
    · rw [List.mem_cons, not_or] at ho
      exact (List.mem_cons.1 (t.under_way j hj hr ho.2)).resolve_left ho.1

theorem Tidy.steps (hl : l.Proper) {w w' : Walk} (h : l.Steps w w') (t : l.Tidy w) : l.Tidy w' := by
  induction h with
  | refl => exact t
  | tail _ h ih => exact ih.step hl h

/-- The walk before its first step. -/
def blankWalk (l : StageLinks) : Walk :=
  ⟨Marks.none l.readers.size, Marks.none l.readers.size, [], []⟩

theorem has_none_of_mem (hl : l.Proper) {k : Nat} (hk : k ∈ l.stages) :
    (Marks.none l.readers.size).has k = false := by
  have := hl.lt_size k hk
  rw [Bool.eq_false_iff, Ne, Marks.has_none]
  omega

theorem tidy_blank (hl : l.Proper) : l.Tidy l.blankWalk := by
  refine ⟨by simp [blankWalk], by simp [blankWalk], by simp [blankWalk], fun k hk => ?_, fun k hk hr => ?_,
    fun k hk hr => ?_⟩
  · simp [blankWalk, has_none_of_mem hl hk]
  all_goals
    rw [blankWalk, has_none_of_mem hl hk] at hr
    cases hr

/-- At the end of a walk that reached every stage, the order lists them all. -/
theorem Tidy.perm (hl : l.Proper) {w : Walk} (t : l.Tidy w) (hstack : w.stack = [])
    (hall : ∀ k ∈ l.stages, w.reached.has k = true) : w.order.Perm l.stages := by
  refine (List.perm_ext_iff_of_nodup t.nodup hl.nodup).2 fun k => ⟨t.order_mem k, fun hk => ?_⟩
  by_contra ho
  have := t.under_way k hk (hall k hk) ho
  rw [hstack] at this
  exact absurd this List.not_mem_nil

/-! ## Where the links go one way -/

/-- Every reader of a listed stage is listed behind it. -/
def ReadersBehind (l : StageLinks) : List Nat → Prop
  | [] => True
  | k :: rest => (∀ r ∈ l.readersOf k, r ∈ rest) ∧ l.ReadersBehind rest

/-- Numbers that go up from writers to readers. -/
def Ranked (l : StageLinks) (rank : Nat → Nat) : Prop := ∀ k r, r ∈ l.readersOf k → rank k < rank r

/-- What holds at every point of a walk along links that go one way: above the topmost mention of a
stage under way stand only stages of higher rank, and among them all its readers not yet left. -/
structure Rising (l : StageLinks) (rank : Nat → Nat) (w : Walk) : Prop where
  above : ∀ above u below, w.stack = above ++ u :: below → u ∉ above → w.reached.has u = true →
    u ∉ w.order → (∀ r ∈ l.readersOf u, r ∈ w.order ∨ r ∈ above) ∧ ∀ x ∈ above, rank u < rank x
  behind : l.ReadersBehind w.order

/-- A member that is not in the first of two lists splits the second one. -/
theorem split_behind {front back above below : List Nat} {u : Nat} (h : front ++ back = above ++ u :: below)
    (hu : u ∉ front) : ∃ middle, above = front ++ middle ∧ back = middle ++ u :: below := by
  rcases List.append_eq_append_iff.1 h with ⟨middle, habove, hback⟩ | ⟨tail, hfront, htail⟩
  · exact ⟨middle, habove, hback⟩
  · cases tail with
    | nil => exact ⟨[], by simpa using hfront.symm, by simpa using htail.symm⟩
    | cons x tail =>
      simp only [List.cons_append, List.cons.injEq] at htail
      exact absurd (by simp [hfront, htail.1]) hu

section rising

variable {rank : Nat → Nat} {reached left : Marks} {order rest : List Nat} {top : Nat}

/-- A stage under way below the top ranks lower than the top, and its readers not yet left stand
above it. -/
theorem Rising.below (up : l.Rising rank ⟨reached, left, top :: rest, order⟩) {above below : List Nat} {u : Nat}
    (hrest : rest = above ++ u :: below) (hne : u ≠ top) (hu : u ∉ above) (hreached : reached.has u = true)
    (ho : u ∉ order) : rank u < rank top ∧ (∀ r ∈ l.readersOf u, r = top ∨ r ∈ order ∨ r ∈ above) ∧
      ∀ x ∈ above, rank u < rank x := by
  obtain ⟨hreaders, hup⟩ := up.above (top :: above) u below (by rw [hrest, List.cons_append]) (by simp [hne, hu])
    hreached ho
  refine ⟨hup top (by simp), fun r hr => ?_, fun x hx => hup x (by simp [hx])⟩
  rcases hreaders r hr with hr | hr
  · exact .inr (.inl hr)
  · exact (List.mem_cons.1 hr).imp_right .inr

/-- Entering a stage puts its readers not yet reached above it. -/
theorem Rising.enter (hl : l.Proper) (hr : l.Ranked rank) (t : l.Tidy ⟨reached, left, top :: rest, order⟩)
    (up : l.Rising rank ⟨reached, left, top :: rest, order⟩) (hself : top ∉ l.readersOf top) :
    l.Rising rank ⟨reached.mark top, left,
      ((l.readersOf top).filter fun k => !(reached.mark top).has k).reverse ++ top :: rest, order⟩ := by
  refine ⟨fun above u below hstack hu hreached ho => ?_, up.behind⟩
  have hfront {x} (hx : x ∈ ((l.readersOf top).filter fun k => !(reached.mark top).has k).reverse) :
      x ∈ l.readersOf top ∧ (reached.mark top).has x = false := by simpa using hx
  have hu_front : u ∉ ((l.readersOf top).filter fun k => !(reached.mark top).has k).reverse := by
    intro hmem
    rw [(hfront hmem).2] at hreached
    cases hreached
  obtain ⟨middle, rfl, hback⟩ := split_behind hstack hu_front
  cases middle with
  | nil =>
    simp only [List.nil_append, List.cons.injEq] at hback
    obtain ⟨rfl, rfl⟩ := hback
    refine ⟨fun r hr_mem => ?_, fun x hx => ?_⟩
    · by_cases hr_order : r ∈ order
      · exact .inl hr_order
      cases hr_reached : (reached.mark top).has r with
      | false => exact .inr (by simp [hr_mem, hr_reached])
      | true =>
        -- The reader is under way further down, where ranks are lower.
        have hne : r ≠ top := fun h => hself (h ▸ hr_mem)
        have hold := (Marks.has_mark.1 hr_reached).resolve_left hne
        have hr_stack := t.under_way r (hl.reader top r hr_mem) hold hr_order
        obtain ⟨above, below, hsplit, hnot⟩ :=
          List.eq_append_cons_of_mem ((List.mem_cons.1 hr_stack).resolve_left hne)
        have hlt := (up.below hsplit hne hnot hold hr_order).1
        exact absurd (hr top r hr_mem) (by omega)
    · rw [List.append_nil] at hx
      exact hr top x (hfront hx).1
  | cons x middle =>
    simp only [List.cons_append, List.cons.injEq] at hback
    obtain ⟨rfl, hrest⟩ := hback
    simp only [List.mem_append, List.mem_cons, not_or] at hu
    obtain ⟨_, hne, hu⟩ := hu
    obtain ⟨hlt, hreaders, hup⟩ := up.below hrest hne hu ((Marks.has_mark.1 hreached).resolve_left hne) ho
    refine ⟨fun r hr_mem => ?_, fun x hx => ?_⟩
    · rcases hreaders r hr_mem with rfl | hr_order | hr_above
      · exact .inr (by simp)
      · exact .inl hr_order
      · exact .inr (by simp [hr_above])
    · rcases List.mem_append.1 hx with hx | hx
      · exact Nat.lt_trans hlt (hr top x (hfront hx).1)
      · rcases List.mem_cons.1 hx with rfl | hx
        · exact hlt
        · exact hup x hx

theorem Rising.step (hl : l.Proper) (hr : l.Ranked rank) {w w' : Walk} (h : l.Step w w')
    (t : l.Tidy w) (up : l.Rising rank w) : l.Rising rank w' := by
  cases h with
  | @start reached left order k hk =>
    refine ⟨fun above u below hstack hu hreached ho => ?_, up.behind⟩
    have hmem : u ∈ [k] := by
      rw [show [k] = above ++ u :: below from hstack]
      simp
    rw [List.mem_singleton.1 hmem] at hreached ho
    exact absurd (t.under_way k hk hreached ho) List.not_mem_nil
  | enter _ hself => exact up.enter hl hr t hself
  | @skip reached left order top rest _ htop =>
    have htop_order := (t.left_iff top (t.stack_mem top (by simp))).1 htop
    refine ⟨fun above u below hstack hu hreached ho => ?_, up.behind⟩
    have hne : u ≠ top := fun h => ho (h ▸ htop_order)
    obtain ⟨_, hreaders, hup⟩ := up.below hstack hne hu hreached ho
    refine ⟨fun r hr => ?_, hup⟩
    rcases hreaders r hr with rfl | hr
    · exact .inl htop_order
    · exact hr
  | @leave reached left order top rest htop hleft =>
    have hnot : top ∉ order := fun ho => by
      rw [(t.left_iff top (t.stack_mem top (by simp))).2 ho] at hleft
      cases hleft
    refine ⟨fun above u below hstack hu hreached ho => ?_, ⟨fun r hr => ?_, up.behind⟩⟩
    · rw [List.mem_cons, not_or] at ho
      obtain ⟨_, hreaders, hup⟩ := up.below hstack ho.1 hu hreached ho.2
      refine ⟨fun r hr => ?_, hup⟩
      rcases hreaders r hr with rfl | hr
      · exact .inl List.mem_cons_self
      · exact hr.imp_left (List.mem_cons_of_mem _)
    · have := (up.above [] top rest rfl List.not_mem_nil htop hnot).1 r hr
      simpa using this

end rising

theorem Rising.steps (hl : l.Proper) {rank : Nat → Nat} (hr : l.Ranked rank) {w w' : Walk}
    (h : l.Steps w w') (t : l.Tidy w) (up : l.Rising rank w) : l.Rising rank w' := by
  induction h with
  | refl => exact up
  | tail hs h ih => exact ih.step hl hr h (t.steps hl hs)

/-! ## The second look -/

theorem checkOrder_cons {k : Nat} {rest : List Nat} {seen : Marks} :
    l.checkOrder (k :: rest) seen = .ok () ↔
      (∀ w ∈ l.writersOf k, w = k ∨ seen.has w = true) ∧ l.checkOrder rest (seen.mark k) = .ok () := by
  rw [checkOrder]
  cases hlast : ((l.writersOf k).filter fun w => !(seen.mark k).has w).getLast? with
  | none =>
    rw [List.getLast?_eq_none_iff, List.filter_eq_nil_iff] at hlast
    simp only [iff_and_self]
    intro _ w hw
    exact Marks.has_mark.1 (by simpa using hlast w hw)
  | some w =>
    have hw := List.mem_of_getLast? hlast
    simp only [List.mem_filter, Bool.not_eq_true'] at hw
    simp only [reduceCtorEq, false_iff, not_and]
    intro hall
    rw [Marks.has_mark.2 (hall w hw.1)] at hw
    exact absurd hw.2 (by simp)

/-- Every writer of a listed stage is listed before it. -/
theorem checkOrder_eq_ok : ∀ {order : List Nat} {seen : Marks}, l.checkOrder order seen = .ok () ↔
    ∀ front k back, order = front ++ k :: back → ∀ w ∈ l.writersOf k, w = k ∨ w ∈ front ∨ seen.has w = true
  | [], seen => by simp [checkOrder]
  | k :: rest, seen => by
    rw [checkOrder_cons, checkOrder_eq_ok]
    constructor
    · rintro ⟨hk, hrest⟩ front j back hsplit w hw
      cases front with
      | nil =>
        obtain ⟨rfl, rfl⟩ := List.cons.inj hsplit
        exact (hk w hw).imp id .inr
      | cons x front =>
        obtain ⟨rfl, htail⟩ := List.cons.inj hsplit
        have := hrest front j back htail w hw
        rw [Marks.has_mark] at this
        simp only [List.mem_cons]
        tauto
    · intro h
      refine ⟨fun w hw => ?_, fun front j back hsplit w hw => ?_⟩
      · simpa using h [] k rest rfl w hw
      · have := h (k :: front) j back (by simp [hsplit]) w hw
        rw [Marks.has_mark]
        simp only [List.mem_cons] at this
        tauto

/-! ## Sorting -/

/-- Sorting is a full walk and a second look at its order, unless the walk meets a stage that reads
what it writes. -/
theorem sort_cases (hl : l.Proper) :
    (∃ w, l.Tidy w ∧ l.Steps l.blankWalk w ∧ w.stack = [] ∧ (∀ k ∈ l.stages, w.reached.has k = true) ∧
      l.sort = (l.checkOrder w.order (Marks.none l.readers.size)).map fun _ => w.order) ∨
    ∃ top, l.sort = .error top ∧ top ∈ l.readersOf top := by
  rcases walkAll_steps l.stages l.blankWalk (fun _ hk => hk) rfl with
    ⟨w, hw, hsteps, hstack, hall⟩ | ⟨top, hw, htop⟩
  · refine .inl ⟨w, (tidy_blank hl).steps hl hsteps, hsteps, hstack, hall, ?_⟩
    rw [blankWalk] at hw
    simp only [sort, hw, bind, Except.bind, pure, Except.pure, Except.map]
  · refine .inr ⟨top, ?_, htop⟩
    rw [blankWalk] at hw
    simp only [sort, hw, bind, Except.bind]

theorem sort_eq_ok (hl : l.Proper) {order : List Nat} (h : l.sort = .ok order) :
    ∃ w, l.Tidy w ∧ w.stack = [] ∧ (∀ k ∈ l.stages, w.reached.has k = true) ∧ w.order = order ∧
      l.checkOrder order (Marks.none l.readers.size) = .ok () := by
  rcases sort_cases hl with ⟨w, t, _, hstack, hall, hsort⟩ | ⟨top, hsort, _⟩
  · rw [hsort] at h
    cases hcheck : l.checkOrder w.order (Marks.none l.readers.size) with
    | error e =>
      rw [hcheck] at h
      cases h
    | ok u =>
      rw [hcheck] at h
      cases h
      exact ⟨w, t, hstack, hall, rfl, hcheck⟩
  · rw [hsort] at h
    cases h

theorem sort_perm (hl : l.Proper) {order : List Nat} (h : l.sort = .ok order) : order.Perm l.stages := by
  obtain ⟨w, t, hstack, hall, rfl, _⟩ := sort_eq_ok hl h
  exact t.perm hl hstack hall

/-- In a sorted order writers come before readers. -/
theorem sort_lt (hl : l.Proper) {order : List Nat} (h : l.sort = .ok order) {k r : Nat}
    (hr : r ∈ l.readersOf k) : order.idxOf k < order.idxOf r := by
  obtain ⟨w, t, hstack, hall, rfl, hcheck⟩ := sort_eq_ok hl h
  have hr_stage := hl.reader k r hr
  have hr_order := (t.perm hl hstack hall).mem_iff.2 hr_stage
  obtain ⟨front, back, hsplit, hnot⟩ := List.eq_append_cons_of_mem hr_order
  have hfront : k ∈ front := by
    rcases checkOrder_eq_ok.1 hcheck front r back hsplit k ((hl.mirror k r).1 hr) with rfl | hk | hk
    · exact absurd hr (t.loopless k hr_stage (hall k hr_stage))
    · exact hk
    · rw [has_none_of_mem hl (hl.writer k r hr)] at hk
      cases hk
  rw [hsplit, List.idxOf_append_of_mem hfront, List.idxOf_append_of_notMem hnot, List.idxOf_cons_self]
  exact List.idxOf_lt_length_of_mem hfront

theorem ReadersBehind.split {front back : List Nat} {k : Nat} (h : l.ReadersBehind (front ++ k :: back)) :
    ∀ r ∈ l.readersOf k, r ∈ back := by
  induction front with
  | nil => exact h.1
  | cons x front ih => exact ih h.2

/-- Links that go one way can be sorted. -/
theorem sort_of_ranked (hl : l.Proper) {rank : Nat → Nat} (hr : l.Ranked rank) :
    ∃ order, l.sort = .ok order := by
  rcases sort_cases hl with ⟨w, t, hsteps, hstack, hall, hsort⟩ | ⟨top, _, htop⟩
  · have up : l.Rising rank w := by
      refine Rising.steps hl hr hsteps (tidy_blank hl) ⟨fun above u below h => ?_, trivial⟩
      simp [blankWalk] at h
    have hcheck : l.checkOrder w.order (Marks.none l.readers.size) = .ok () := by
      refine checkOrder_eq_ok.2 fun front k back hsplit x hx => ?_
      have hx_order := (t.perm hl hstack hall).mem_iff.2 (hl.writer x k ((hl.mirror x k).2 hx))
      rw [hsplit, List.mem_append, List.mem_cons] at hx_order
      rcases hx_order with hx_front | rfl | hx_back
      · exact .inr (.inl hx_front)
      · exact .inl rfl
      · -- Behind `x` stands its reader `k` once more, but stages are listed once.
        obtain ⟨b₁, b₂, rfl⟩ := List.append_of_mem hx_back
        have hbehind : l.ReadersBehind ((front ++ k :: b₁) ++ x :: b₂) := by
          simpa [hsplit] using up.behind
        have hk := hbehind.split k ((hl.mirror x k).2 hx)
        have := t.nodup
        rw [hsplit, List.nodup_append, List.nodup_cons] at this
        exact absurd (by simp [hk]) this.2.1.1
    exact ⟨w.order, by rw [hsort, hcheck]; rfl⟩
  · exact absurd (hr top top htop) (Nat.lt_irrefl _)

end StageLinks

end NetLower
