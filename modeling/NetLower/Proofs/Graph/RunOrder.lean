/-
The running order of a graph.  It lists every stage still in the graph once; in a
well-formed graph it puts the writer of a tensor before the readers, and there is one
exactly if no stage feeds itself.
-/
import NetLower.Proofs.Graph.Layering
import NetLower.Proofs.Graph.Walk

namespace NetLower

namespace StageLinks

theorem mem_readersOf_add {l : StageLinks} {w k x r : Nat} :
    r ∈ (l.add w k).readersOf x ↔ (x = w ∧ r = k ∧ x < l.readers.size) ∨ r ∈ l.readersOf x := by
  simp only [readersOf, add, Array.getD_eq_getD_getElem?, Array.getElem?_modify]
  by_cases hx : w = x
  · subst hx
    by_cases hw : w < l.readers.size <;> simp [hw]
  · have : ¬ x = w := fun h => hx h.symm
    simp [hx, this]

theorem mem_writersOf_add {l : StageLinks} {w k x r : Nat} :
    x ∈ (l.add w k).writersOf r ↔ (x = w ∧ r = k ∧ r < l.writers.size) ∨ x ∈ l.writersOf r := by
  simp only [writersOf, add, Array.getD_eq_getD_getElem?, Array.getElem?_modify]
  by_cases hr : k = r
  · subst hr
    by_cases hk : k < l.writers.size <;> simp [hk]
  · have : ¬ r = k := fun h => hr h.symm
    simp [hr, this]

/-- Links between pairs of stages, one after the other. -/
def addAll (l : StageLinks) (pairs : List (Nat × Nat)) : StageLinks :=
  pairs.foldl (fun l p => l.add p.1 p.2) l

theorem stages_addAll (pairs : List (Nat × Nat)) (l : StageLinks) :
    (l.addAll pairs).stages = l.stages ∧ (l.addAll pairs).readers.size = l.readers.size ∧
      (l.addAll pairs).writers.size = l.writers.size := by
  induction pairs generalizing l with
  | nil => exact ⟨rfl, rfl, rfl⟩
  | cons p pairs ih =>
    obtain ⟨h₁, h₂, h₃⟩ := ih (l.add p.1 p.2)
    exact ⟨h₁, h₂.trans (by simp [add]), h₃.trans (by simp [add])⟩

theorem mem_readersOf_addAll {pairs : List (Nat × Nat)} {l : StageLinks} {x r : Nat} :
    r ∈ (l.addAll pairs).readersOf x ↔ ((x, r) ∈ pairs ∧ x < l.readers.size) ∨ r ∈ l.readersOf x := by
  induction pairs generalizing l with
  | nil => simp [addAll]
  | cons p pairs ih =>
    show r ∈ ((l.add p.1 p.2).addAll pairs).readersOf x ↔ _
    rw [ih, mem_readersOf_add, List.mem_cons, Prod.ext_iff, show (l.add p.1 p.2).readers.size = l.readers.size by
      simp [add]]
    tauto

theorem mem_writersOf_addAll {pairs : List (Nat × Nat)} {l : StageLinks} {x r : Nat} :
    x ∈ (l.addAll pairs).writersOf r ↔ ((x, r) ∈ pairs ∧ r < l.writers.size) ∨ x ∈ l.writersOf r := by
  induction pairs generalizing l with
  | nil => simp [addAll]
  | cons p pairs ih =>
    show x ∈ ((l.add p.1 p.2).addAll pairs).writersOf r ↔ _
    rw [ih, mem_writersOf_add, List.mem_cons, Prod.ext_iff, show (l.add p.1 p.2).writers.size = l.writers.size by
      simp [add]]
    tauto

end StageLinks

namespace Graph

variable {g : Graph}

theorem mem_liveStages {id : StageId} {s : Stage} : (id, s) ∈ g.liveStages ↔ g.stage? id = some s := by
  simp only [liveStages, List.mem_filterMap, Prod.exists, List.mem_zipIdx_iff_getElem?,
    Option.map_eq_some_iff, Prod.mk.injEq, stage?, Option.join_eq_some_iff, Array.getElem?_toList]
  constructor
  · rintro ⟨_, index, hs, _, rfl, rfl, rfl⟩
    exact hs
  · intro hs
    exact ⟨some s, id.index, hs, s, rfl, rfl, rfl⟩

theorem mem_liveIds {id : StageId} : id ∈ g.liveIds ↔ ∃ s, g.stage? id = some s := by
  simp [liveIds, mem_liveStages]

theorem nodup_liveIds : g.liveIds.Nodup := by
  have hindex : (g.stages.toList.zipIdx.map Prod.snd).Nodup := by
    rw [List.zipIdx_map_snd]
    exact List.nodup_range'
  refine List.pairwise_map.2 (List.Pairwise.filterMap _ ?_ (List.pairwise_map.1 hindex))
  rintro ⟨s, k⟩ ⟨s', k'⟩ hne ⟨id, _⟩ h ⟨id', _⟩ h' rfl
  simp only [Option.map_eq_some_iff, Prod.mk.injEq] at h h'
  obtain ⟨_, _, hid, _⟩ := h
  obtain ⟨_, _, hid', _⟩ := h'
  exact hne (by simpa using hid.trans hid'.symm)

/-- A writer and a reader for every input edge that leads to a tensor somebody writes. -/
def linkPairs (g : Graph) : List (Nat × Nat) :=
  g.liveStages.flatMap fun (id, s) =>
    s.inputs.filterMap fun e => (g.writerOf? e).map fun w => (w.index, id.index)

theorem mem_linkPairs {k r : Nat} : (k, r) ∈ g.linkPairs ↔
    ∃ s e, g.stage? ⟨r⟩ = some s ∧ e ∈ s.inputs ∧ g.writerOf? e = some ⟨k⟩ := by
  simp only [linkPairs, List.mem_flatMap, Prod.exists, mem_liveStages, List.mem_filterMap,
    Option.map_eq_some_iff, Prod.mk.injEq]
  constructor
  · rintro ⟨⟨_⟩, s, hs, e, he, ⟨_⟩, hw, rfl, rfl⟩
    exact ⟨s, e, hs, he, hw⟩
  · rintro ⟨s, e, hs, he, hw⟩
    exact ⟨⟨r⟩, s, hs, e, he, ⟨k⟩, hw, rfl, rfl⟩

/-- The stages of a graph without links between them. -/
def unlinked (g : Graph) : StageLinks :=
  ⟨g.liveIds.map StageId.index, Array.replicate g.stages.size [], Array.replicate g.stages.size []⟩

@[simp] theorem readersOf_unlinked (k : Nat) : g.unlinked.readersOf k = [] := by
  simp only [StageLinks.readersOf, unlinked, Array.getD_eq_getD_getElem?, Array.getElem?_replicate]
  split <;> rfl

@[simp] theorem writersOf_unlinked (k : Nat) : g.unlinked.writersOf k = [] := by
  simp only [StageLinks.writersOf, unlinked, Array.getD_eq_getD_getElem?, Array.getElem?_replicate]
  split <;> rfl

theorem links_eq : g.links = g.unlinked.addAll g.linkPairs := by
  rw [StageLinks.addAll, linkPairs, List.foldl_flatMap]
  simp only [links, List.foldl_filterMap]
  congr 1
  funext l ⟨id, s⟩
  congr 1
  funext l e
  cases g.writerOf? e <;> rfl

theorem stage_of_writerOf? {e : EdgeId} {w : StageId} (h : g.writerOf? e = some w) :
    ∃ s, g.stage? w = some s := by
  simp only [writerOf?, bind, pure, Option.bind_eq_some_iff, Option.some.injEq] at h
  obtain ⟨_, _, _, _, _, _, _, _, s, hs, rfl⟩ := h
  exact ⟨s, hs⟩

/-- A link stands for an input edge and the stage that writes its tensor. -/
theorem mem_readersOf_links {k r : Nat} : r ∈ g.links.readersOf k ↔
    ∃ s e, g.stage? ⟨r⟩ = some s ∧ e ∈ s.inputs ∧ g.writerOf? e = some ⟨k⟩ := by
  rw [links_eq, StageLinks.mem_readersOf_addAll, mem_linkPairs]
  simp only [readersOf_unlinked, List.not_mem_nil, or_false, and_iff_left_iff_imp]
  rintro ⟨s, e, _, _, hw⟩
  obtain ⟨s', hs'⟩ := stage_of_writerOf? hw
  simpa [unlinked] using lt_of_stage? hs'

theorem mem_writersOf_links {k r : Nat} : k ∈ g.links.writersOf r ↔
    ∃ s e, g.stage? ⟨r⟩ = some s ∧ e ∈ s.inputs ∧ g.writerOf? e = some ⟨k⟩ := by
  rw [links_eq, StageLinks.mem_writersOf_addAll, mem_linkPairs]
  simp only [writersOf_unlinked, List.not_mem_nil, or_false, and_iff_left_iff_imp]
  rintro ⟨s, e, hs, _, _⟩
  simpa [unlinked] using lt_of_stage? hs

theorem stages_links : g.links.stages = g.liveIds.map StageId.index := by
  rw [links_eq, (StageLinks.stages_addAll _ _).1]
  rfl

theorem mem_stages_links {k : Nat} : k ∈ g.links.stages ↔ ∃ s, g.stage? ⟨k⟩ = some s := by
  rw [stages_links, List.mem_map]
  constructor
  · rintro ⟨id, hid, rfl⟩
    exact mem_liveIds.1 hid
  · intro h
    exact ⟨⟨k⟩, mem_liveIds.2 h, rfl⟩

theorem proper_links : g.links.Proper where
  nodup := by
    rw [stages_links]
    exact nodup_liveIds.map fun a b h => by cases a; cases b; exact congrArg _ h
  lt_size k hk := by
    obtain ⟨s, hs⟩ := mem_stages_links.1 hk
    rw [links_eq, (StageLinks.stages_addAll _ _).2.1]
    simpa [unlinked] using lt_of_stage? hs
  reader k r h := by
    obtain ⟨s, _, hs, _⟩ := mem_readersOf_links.1 h
    exact mem_stages_links.2 ⟨s, hs⟩
  writer k r h := by
    obtain ⟨_, _, _, _, hw⟩ := mem_readersOf_links.1 h
    exact mem_stages_links.2 (stage_of_writerOf? hw)
  mirror k r := by rw [mem_readersOf_links, mem_writersOf_links]

theorem runOrder_eq_ok {order : List StageId} :
    g.runOrder = .ok order ↔ ∃ ks, g.links.sort = .ok ks ∧ order = ks.map StageId.mk := by
  unfold runOrder
  cases g.links.sort <;> simp [eq_comm]

/-- The running order lists every stage still in the graph once. -/
theorem runOrder_perm {order : List StageId} (h : g.runOrder = .ok order) : order.Perm g.liveIds := by
  obtain ⟨ks, hks, rfl⟩ := runOrder_eq_ok.1 h
  have hp := (StageLinks.sort_perm proper_links hks).map StageId.mk
  rw [stages_links, List.map_map, show StageId.mk ∘ StageId.index = id from rfl, List.map_id] at hp
  exact hp

theorem idxOf_map_mk (ks : List Nat) (k : Nat) : (ks.map StageId.mk).idxOf ⟨k⟩ = ks.idxOf k := by
  induction ks with
  | nil => rfl
  | cons x ks ih =>
    rw [List.map_cons, List.idxOf_cons, List.idxOf_cons, ih]
    have hbeq : (StageId.mk x == ⟨k⟩) = (x == k) := by
      rw [Bool.eq_iff_iff, beq_iff_eq, beq_iff_eq, StageId.mk.injEq]
    rw [hbeq]

section wellFormed

variable (wf : g.WellFormed)
include wf

/-- Behind an input edge stands the stage that writes its tensor. -/
theorem WellFormed.writerOf?_eq_some {b w : StageId} {s : Stage} {e : EdgeId} {d : DataId}
    (hs : g.stage? b = some s) (he : e ∈ s.inputs) (hd : g.target? e = some d) :
    g.writerOf? e = some w ↔ g.Touches .output w d := by
  obtain ⟨k, d', node, hk, hedge, hnode⟩ := wf.edge_of_mem hs (show e ∈ s.slots .input from he)
  rw [target?_of_edge? hedge, Option.some.injEq] at hd
  change d' = d at hd
  subst hd
  have hlook : g.writerOf? e = node.producer.bind fun x =>
      (g.edge? x).bind fun p => (g.stage? p.stage).map fun _ => p.stage := by
    simp only [writerOf?, bind, pure]
    rw [show g.edges[e.index]? = _ from hedge, Option.bind_some, show g.datas[d'.index]? = _ from hnode,
      Option.bind_some]
    simp only [Option.map_eq_bind]
    rfl
  rw [hlook]
  simp only [Option.bind_eq_some_iff, Option.map_eq_some_iff, wf.producer d' node _ hnode]
  constructor
  · rintro ⟨x, hx, p, hp, s', hs', rfl⟩
    obtain ⟨id, s'', k', _, hs'', hk', hedge', _⟩ := wf.edge_of_joins hx
    rw [hp, Option.some.injEq] at hedge'
    subst hedge'
    exact ⟨s'', hs'', x, List.mem_of_getElem? hk', hx.target⟩
  · rintro ⟨s', hs', x, hx, hd⟩
    obtain ⟨k', d'', _, _, hedge', _⟩ := wf.edge_of_mem hs' hx
    exact ⟨x, ⟨w, s', hs', hx, hd⟩, _, hedge', s', hs', rfl⟩

/-- The links are what feeds what. -/
theorem WellFormed.mem_readersOf {k r : Nat} : r ∈ g.links.readersOf k ↔ g.Feeds ⟨k⟩ ⟨r⟩ := by
  rw [mem_readersOf_links]
  constructor
  · rintro ⟨s, e, hs, he, hw⟩
    obtain ⟨_, d, _, _, hedge, _⟩ := wf.edge_of_mem hs (show e ∈ s.slots .input from he)
    have hd := target?_of_edge? hedge
    exact ⟨d, (wf.writerOf?_eq_some hs he hd).1 hw, s, hs, e, he, hd⟩
  · rintro ⟨d, hw, s, hs, e, he, hd⟩
    exact ⟨s, e, hs, he, (wf.writerOf?_eq_some hs he hd).2 hw⟩

/-- In the running order the writer of a tensor comes before the readers. -/
theorem WellFormed.runOrder_lt {order : List StageId} (h : g.runOrder = .ok order) {a b : StageId}
    (hab : g.Feeds a b) : order.idxOf a < order.idxOf b := by
  obtain ⟨ks, hks, rfl⟩ := runOrder_eq_ok.1 h
  have := StageLinks.sort_lt proper_links hks (wf.mem_readersOf.2 hab)
  rwa [← idxOf_map_mk, ← idxOf_map_mk] at this

/-- A graph with a running order is orderly. -/
theorem WellFormed.orderly {order : List StageId} (h : g.runOrder = .ok order) : g.Orderly := by
  classical
  refine ⟨wf, ⟨{
    stage := fun id => order.idxOf id + 1
    data := fun d => if hd : ∃ a, g.Touches .output a d then order.idxOf hd.choose + 1 else 0
    reads := fun {id d} hr => ?_
    writes := fun {id d} hw => ?_ }⟩⟩
  · split
    next hd => exact Nat.succ_lt_succ (wf.runOrder_lt h ⟨d, hd.choose_spec, hr⟩)
    · exact Nat.succ_pos _
  · have hd : ∃ a, g.Touches .output a d := ⟨id, hw⟩
    exact Nat.le_of_eq (by rw [dif_pos hd, wf.writer_stage_unique hw hd.choose_spec])

end wellFormed

/-- An orderly graph has a running order. -/
theorem Orderly.runOrder (o : g.Orderly) : ∃ order, g.runOrder = .ok order := by
  obtain ⟨L⟩ := o.layered
  have hrank : g.links.Ranked fun k => L.stage ⟨k⟩ := by
    intro k r hr
    obtain ⟨d, hw, hr⟩ := o.wellFormed.mem_readersOf.1 hr
    exact Nat.lt_of_le_of_lt (L.writes hw) (L.reads hr)
  obtain ⟨ks, hks⟩ := StageLinks.sort_of_ranked proper_links hrank
  exact ⟨_, runOrder_eq_ok.2 ⟨ks, hks, rfl⟩⟩

theorem Orderly.acyclic (o : g.Orderly) : g.Acyclic := by
  obtain ⟨L⟩ := o.layered
  exact L.acyclic

end Graph

end NetLower
