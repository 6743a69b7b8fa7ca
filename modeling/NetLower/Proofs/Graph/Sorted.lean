/-
When the stages of a graph can be sorted.  Stages on a cycle have no order to run in; without
cycles, the number of stages that a stage depends on goes up along every link, so that the walk
finds an order.
-/
import NetLower.Proofs.Graph.RunOrder
import Mathlib.Data.Finset.Card

namespace NetLower

open Relation (TransGen)

namespace StageLinks

variable {l : StageLinks}

/-- The second stage reads what the first one writes. -/
def Linked (l : StageLinks) (k r : Nat) : Prop := r ∈ l.readersOf k

open Classical in
/-- The number of stages that a stage depends on. -/
noncomputable def depth (l : StageLinks) (k : Nat) : Nat :=
  (l.stages.toFinset.filter fun x => TransGen l.Linked x k).card

theorem ranked_depth (hl : l.Proper) (h : ∀ k, ¬ TransGen l.Linked k k) : l.Ranked l.depth := by
  classical
  intro k r hr
  refine Finset.card_lt_card ((Finset.ssubset_iff_of_subset fun x hx => ?_).2 ⟨k, ?_, ?_⟩)
  · rw [Finset.mem_filter] at hx ⊢
    exact ⟨hx.1, hx.2.tail hr⟩
  · rw [Finset.mem_filter, List.mem_toFinset]
    exact ⟨hl.writer k r hr, .single hr⟩
  · rw [Finset.mem_filter]
    exact fun hk => h k hk.2

theorem sort_lt_of_transGen (hl : l.Proper) {order : List Nat} (h : l.sort = .ok order) {k r : Nat}
    (hkr : TransGen l.Linked k r) : order.idxOf k < order.idxOf r := by
  induction hkr with
  | single hr => exact sort_lt hl h hr
  | tail _ hr ih => exact Nat.lt_trans ih (sort_lt hl h hr)

/-- Stages can be sorted if and only if none of them depends on itself. -/
theorem exists_sort_iff (hl : l.Proper) : (∃ order, l.sort = .ok order) ↔ ∀ k, ¬ TransGen l.Linked k k := by
  constructor
  · intro ⟨order, h⟩ k hk
    exact Nat.lt_irrefl _ (sort_lt_of_transGen hl h hk)
  · exact fun h => sort_of_ranked hl (ranked_depth hl h)

end StageLinks

namespace Graph

variable {g : Graph}

/-- A stage in the graph is the one that writes, as the tensor has it, what another one reads. -/
def Supplies (g : Graph) (a b : StageId) : Prop :=
  ∃ reader e d node p edge writer, g.stage? b = some reader ∧ e ∈ reader.inputs ∧ g.target? e = some d ∧
    g.data? d = some node ∧ node.producer = some p ∧ g.edge? p = some edge ∧ edge.stage = a ∧
      g.stage? a = some writer

theorem writerOf?_eq_some {e : EdgeId} {a : StageId} : g.writerOf? e = some a ↔
    ∃ d node p edge writer, g.target? e = some d ∧ g.data? d = some node ∧ node.producer = some p ∧
      g.edge? p = some edge ∧ edge.stage = a ∧ g.stage? a = some writer := by
  simp only [writerOf?, bind, pure, Option.bind_eq_some_iff, Option.some.injEq, target?, Option.map_eq_some_iff]
  constructor
  · rintro ⟨r, hr, node, hnode, p, hp, edge, hedge, writer, hwriter, rfl⟩
    exact ⟨r.data, node, p, edge, writer, ⟨r, hr, rfl⟩, hnode, hp, hedge, rfl, hwriter⟩
  · rintro ⟨_, node, p, edge, writer, ⟨r, hr, rfl⟩, hnode, hp, hedge, rfl, hwriter⟩
    exact ⟨r, hr, node, hnode, p, hp, edge, hedge, writer, hwriter, rfl⟩

/-- The links that are sorted are those between writers and readers. -/
theorem linked_iff {k r : Nat} : g.links.Linked k r ↔ g.Supplies ⟨k⟩ ⟨r⟩ := by
  rw [StageLinks.Linked, mem_readersOf_links]
  simp only [writerOf?_eq_some, Supplies, ← exists_and_left]

theorem transGen_linked_iff {k r : Nat} : TransGen g.links.Linked k r ↔ TransGen g.Supplies ⟨k⟩ ⟨r⟩ := by
  constructor
  · exact TransGen.lift StageId.mk (fun _ _ => linked_iff.1) k r
  · exact TransGen.lift StageId.index (fun _ _ => linked_iff.2) ⟨k⟩ ⟨r⟩

/-- There is a running order if and only if no stage depends on itself.  It lists every stage still
in the graph once, and a writer comes before its readers. -/
theorem runOrder_sound_and_complete (g : Graph) :
    ((∃ order, g.runOrder = .ok order) ↔ ∀ id, ¬ TransGen g.Supplies id id) ∧
      ∀ order, g.runOrder = .ok order → order.Nodup ∧ (∀ id, id ∈ order ↔ ∃ s, g.stage? id = some s) ∧
        ∀ a b, g.Supplies a b → order.idxOf a < order.idxOf b := by
  constructor
  · calc (∃ order, g.runOrder = .ok order)
        ↔ ∃ order, g.links.sort = .ok order := by simp [runOrder_eq_ok]
      _ ↔ ∀ k, ¬ TransGen g.links.Linked k k := StageLinks.exists_sort_iff proper_links
      _ ↔ ∀ id, ¬ TransGen g.Supplies id id := by
        simp only [transGen_linked_iff]
        exact ⟨fun h id => h id.index, fun h k => h ⟨k⟩⟩
  · intro order h
    have hperm := runOrder_perm h
    refine ⟨hperm.nodup_iff.2 nodup_liveIds, fun id => hperm.mem_iff.trans mem_liveIds, fun a b hab => ?_⟩
    obtain ⟨ks, hks, rfl⟩ := runOrder_eq_ok.1 h
    have hlt := StageLinks.sort_lt proper_links hks (linked_iff.2 hab)
    rwa [← idxOf_map_mk, ← idxOf_map_mk] at hlt

end Graph

end NetLower
