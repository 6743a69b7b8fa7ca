/-
Stages in the order in which they can run.  The order is the reverse of the order
in which a depth-first walk along the links from writers to readers leaves the
stages; a second look makes sure that no stage comes before a writer of its
inputs.
-/
import NetLower.Graph.Basic

namespace NetLower

/-- A set of the numbers below a bound. -/
structure Marks where
  flags : Array Bool
  deriving DecidableEq, Repr

namespace Marks

/-- No number below `size` marked. -/
def none (size : Nat) : Marks := ⟨Array.replicate size false⟩

/-- Whether a number is marked; those past the bound always are. -/
def has (m : Marks) (k : Nat) : Bool := m.flags.getD k true

def mark (m : Marks) (k : Nat) : Marks := ⟨m.flags.setIfInBounds k true⟩

/-- How many numbers are not marked. -/
def unmarked (m : Marks) : Nat := m.flags.toList.count false

theorem count_set_true (l : List Bool) (k : Nat) (h : l[k]? = some false) :
    (l.set k true).count false < l.count false := by
  induction l generalizing k with
  | nil => simp at h
  | cons b l ih =>
    cases k with
    | zero =>
      simp only [List.getElem?_cons_zero, Option.some.injEq] at h
      subst h
      simp
    | succ k =>
      have := ih k (by simpa using h)
      simp only [List.set_cons_succ, List.count_cons]
      omega

theorem unmarked_mark_lt {m : Marks} {k : Nat} (h : m.has k = false) :
    (m.mark k).unmarked < m.unmarked := by
  have hk : m.flags.toList[k]? = some false := by
    simp only [has, Array.getD_eq_getD_getElem?] at h
    cases e : m.flags[k]? with
    | none => simp [e] at h
    | some b => simp [e] at h; simp [h, e]
  simpa [unmarked, mark] using count_set_true m.flags.toList k hk

end Marks

/-- The links from writers to readers between the stages, youngest link first. -/
structure StageLinks where
  /-- The stages that take part, in order of creation. -/
  stages : List Nat
  /-- The readers of what a stage writes. -/
  readers : Array (List Nat)
  /-- The writers of what a stage reads. -/
  writers : Array (List Nat)

namespace StageLinks

def readersOf (l : StageLinks) (k : Nat) : List Nat := l.readers.getD k []

def writersOf (l : StageLinks) (k : Nat) : List Nat := l.writers.getD k []

/-- One link more. -/
def add (l : StageLinks) (writer reader : Nat) : StageLinks :=
  { l with
    readers := l.readers.modify writer (reader :: ·)
    writers := l.writers.modify reader (writer :: ·) }

/-- How many links there are. -/
def count (l : StageLinks) : Nat := l.readers.toList.flatten.length

theorem length_readersOf_le (l : StageLinks) (k : Nat) : (l.readersOf k).length ≤ l.count := by
  rw [readersOf, Array.getD_eq_getD_getElem?]
  cases h : l.readers[k]? with
  | none => exact Nat.zero_le _
  | some readers =>
    exact (List.sublist_flatten_of_mem (Array.mem_toList_iff.2 (Array.mem_of_getElem? h))).length_le

/-- A depth-first walk: what was reached, what was left, what is under way, and the stages in
the order of leaving, last first. -/
structure Walk where
  reached : Marks
  left : Marks
  stack : List Nat
  order : List Nat

/-- Walk until nothing is under way. Fails at a stage that reads what it writes. -/
def walk (l : StageLinks) (w : Walk) : Except Nat Walk :=
  match w with
  | { stack := [], .. } => .ok w
  | { reached, left, stack := top :: rest, order } =>
    if reached.has top = false then
      if top ∈ l.readersOf top then .error top
      else
        let reached := reached.mark top
        let next := (l.readersOf top).filter fun k => !reached.has k
        walk l { reached, left, stack := next.reverse ++ top :: rest, order }
    else if left.has top then walk l { reached, left, stack := rest, order }
    else walk l { reached, left := left.mark top, stack := rest, order := top :: order }
-- Each stage is entered once and puts no more on the stack than there are links.
termination_by w.reached.unmarked * (l.count + 1) + w.stack.length
decreasing_by
  · rename_i marks hnew _
    have hnext := Nat.le_trans (List.length_filter_le (fun k => !(marks.mark top).has k) _)
      (l.length_readersOf_le top)
    have hle := Nat.mul_le_mul_right (l.count + 1) (Nat.succ_le_of_lt (Marks.unmarked_mark_lt hnew))
    simp only [List.length_append, List.length_reverse, List.length_cons, Nat.succ_mul] at hle ⊢
    omega
  · simp
  · simp

/-- Walk from every stage in turn that has not been reached. -/
def walkAll (l : StageLinks) : List Nat → Walk → Except Nat Walk
  | [], w => .ok w
  | k :: rest, w =>
    if w.reached.has k then walkAll l rest w
    else do walkAll l rest (← l.walk { w with stack := [k] })

/-- Fails at a writer that does not come before all its readers, given what came already. -/
def checkOrder (l : StageLinks) : List Nat → Marks → Except Nat Unit
  | [], _ => .ok ()
  | k :: rest, seen =>
    let seen := seen.mark k
    match ((l.writersOf k).filter fun w => !seen.has w).getLast? with
    | some writer => .error writer
    | none => checkOrder l rest seen

/-- The stages with every writer before its readers, or a stage on a cycle. -/
def sort (l : StageLinks) : Except Nat (List Nat) := do
  let blank := Marks.none l.readers.size
  let w ← l.walkAll l.stages { reached := blank, left := blank, stack := [], order := [] }
  l.checkOrder w.order blank
  return w.order

end StageLinks

namespace Graph

/-- The stage still in the graph that writes the tensor behind an input edge. -/
def writerOf? (g : Graph) (edge : EdgeId) : Option StageId := do
  let e ← g.edges[edge.index]?
  let d ← g.datas[e.data.index]?
  let producer ← g.edges[(← d.producer).index]?
  let _ ← g.stage? producer.stage
  return producer.stage

/-- The links between the stages still in the graph, added stage by stage and slot by slot. -/
def links (g : Graph) : StageLinks :=
  let blank : StageLinks :=
    { stages := g.liveIds.map StageId.index
      readers := Array.replicate g.stages.size []
      writers := Array.replicate g.stages.size [] }
  g.liveStages.foldl (fun l (id, s) =>
    s.inputs.foldl (fun l edge =>
      match g.writerOf? edge with
      | some writer => l.add writer.index id.index
      | none => l) l) blank

/-- The stages in the order in which they can run. -/
def runOrder (g : Graph) : Outcome (List StageId) :=
  match g.links.sort with
  | .ok order => .ok (order.map StageId.mk)
  | .error stage => .error (.graph (.cycle ⟨stage⟩))

end Graph

end NetLower
