/-
What is noted of the wishes of stages.  An edge belongs to one slot of one stage, so no wish
is written over another: what is noted for an edge is what its stage asks for there, and
nothing else is noted.
-/
import NetLower.Pass.Strides
import NetLower.Proofs.Graph.RunOrder
import NetLower.Proofs.Stage.Settled

namespace NetLower

namespace Site

variable {s : Site} {report : Report StrideReq}

/-- The edges of the stage, each with what is asked for at it. -/
def asked (s : Site) (report : Report StrideReq) : List (EdgeId × Option StrideReq) :=
  s.stage.inputs.zip report.inputs ++ s.stage.outputs.zip report.outputs

theorem mem_asked {e : EdgeId} {wish : Option StrideReq} : (e, wish) ∈ s.asked report ↔
    ∃ (kind : EdgeKind) (k : Nat), (s.stage.slots kind)[k]? = some e ∧ (report.slots kind)[k]? = some wish := by
  rw [asked, List.mem_append, Graph.mem_zip, Graph.mem_zip]
  constructor
  · rintro (⟨k, hk⟩ | ⟨k, hk⟩)
    · exact ⟨.input, k, hk⟩
    · exact ⟨.output, k, hk⟩
  · rintro ⟨kind, k, hk⟩
    cases kind with
    | input => exact .inl ⟨k, hk⟩
    | output => exact .inr ⟨k, hk⟩

end Site

namespace Graph

variable {g : Graph} {reqs : EdgeReqs} {edges : List (EdgeId × Option StrideReq)} {e : EdgeId} {req : StrideReq}

/-! ## One stage -/

theorem size_noteReqs : ∀ {edges : List (EdgeId × Option StrideReq)} {reqs : EdgeReqs},
    (noteReqs reqs edges).size = reqs.size
  | [], _ => rfl
  | (_, none) :: edges, _ => @size_noteReqs edges _
  | (x, some r) :: edges, reqs => by
    rw [noteReqs, List.foldl_cons]
    exact (@size_noteReqs edges _).trans (Array.size_setIfInBounds ..)

/-- Notes about other edges leave an edge alone. -/
theorem noteReqs_other : ∀ {edges : List (EdgeId × Option StrideReq)} {reqs : EdgeReqs}, (∀ p ∈ edges, p.1 ≠ e) →
    (noteReqs reqs edges)[e.index]? = reqs[e.index]?
  | [], _, _ => rfl
  | (_, none) :: edges, _, h => @noteReqs_other edges _ fun p hp => h p (by simp [hp])
  | (x, some r) :: edges, reqs, h => by
    rw [noteReqs, List.foldl_cons]
    have hne : x.index ≠ e.index := by
      intro heq
      refine h (x, some r) (by simp) ?_
      cases x
      cases e
      exact congrArg EdgeId.mk heq
    exact (@noteReqs_other edges _ fun p hp => h p (by simp [hp])).trans (Array.getElem?_setIfInBounds_ne hne)

/-- A wish that is noted once is noted. -/
theorem noteReqs_mem : ∀ {edges : List (EdgeId × Option StrideReq)} {reqs : EdgeReqs}, (edges.map Prod.fst).Nodup →
    e.index < reqs.size → (e, some req) ∈ edges → (noteReqs reqs edges)[e.index]? = some (some req)
  | (x, wish) :: edges, reqs, hnodup, hlt, hmem => by
    rw [List.map_cons, List.nodup_cons] at hnodup
    rw [noteReqs, List.foldl_cons]
    rcases List.mem_cons.1 hmem with heq | hmem
    · cases heq
      refine (@noteReqs_other e edges _ fun p hp heq => hnodup.1 ?_).trans ?_
      · exact List.mem_map.2 ⟨p, hp, heq⟩
      · rw [Array.getElem?_setIfInBounds_self, if_pos hlt]
    · refine noteReqs_mem hnodup.2 ?_ hmem
      cases wish with
      | none => exact hlt
      | some r => rwa [Array.size_setIfInBounds]

/-- What is noted was noted now or before. -/
theorem mem_of_noteReqs : ∀ {edges : List (EdgeId × Option StrideReq)} {reqs : EdgeReqs},
    (noteReqs reqs edges)[e.index]?.join = some req → (e, some req) ∈ edges ∨ reqs[e.index]?.join = some req
  | [], _, h => .inr h
  | (_, none) :: edges, _, h => (@mem_of_noteReqs edges _ h).imp_left (List.mem_cons_of_mem _)
  | (x, some r) :: edges, reqs, h => by
    rw [noteReqs, List.foldl_cons] at h
    rcases @mem_of_noteReqs edges _ h with hmem | hreq
    · exact .inl (List.mem_cons_of_mem _ hmem)
    · rw [Array.getElem?_setIfInBounds] at hreq
      split at hreq
      next heq =>
        split at hreq
        · rw [Option.join_some, Option.some.injEq] at hreq
          obtain rfl : x = e := by
            cases x
            cases e
            exact congrArg EdgeId.mk heq
          exact .inl (hreq ▸ List.mem_cons_self)
        · cases hreq
      · exact .inr hreq

/-- What a stage asks for at an edge. -/
def AsksAt (g : Graph) (id : StageId) (e : EdgeId) (req : StrideReq) : Prop :=
  ∃ site report, g.site id = .ok site ∧ site.kind.family.strides site = .ok report ∧
    (e, some req) ∈ site.asked report

theorem AsksAt.owner {id : StageId} (h : g.AsksAt id e req) :
    ∃ s kind, g.stage? id = some s ∧ e ∈ s.slots kind := by
  obtain ⟨site, report, hsite, _, hmem⟩ := h
  obtain ⟨kind, k, he, _⟩ := Site.mem_asked.1 hmem
  exact ⟨site.stage, kind, (site_eq_ok.1 hsite).1, List.mem_of_getElem? he⟩

theorem WellFormed.nodup_asked {id : StageId} {site : Site} (wf : g.WellFormed) (hsite : g.site id = .ok site)
    (report : Report StrideReq) : ((site.asked report).map Prod.fst).Nodup := by
  have hs := (site_eq_ok.1 hsite).1
  rw [Site.asked, List.map_append, List.nodup_append]
  refine ⟨(wf.nodup_slots hs .input).sublist (fst_zip_sublist _ _),
    (wf.nodup_slots hs .output).sublist (fst_zip_sublist _ _), fun x hx y hy hxy => ?_⟩
  have hx : x ∈ site.stage.slots .input := (fst_zip_sublist _ _).subset hx
  have hy : y ∈ site.stage.slots .output := (fst_zip_sublist _ _).subset hy
  cases (wf.owner_unique hs hx hs (hxy ▸ hy)).2

/-! ## All stages -/

/-- While wishes are noted: those of the stages behind, and nothing else. -/
structure Noted (g : Graph) (rest : List StageId) (reqs : EdgeReqs) : Prop where
  size : reqs.size = g.edges.size
  nodup : rest.Nodup
  speak : ∀ {id s}, g.stage? id = some s → id ∈ rest ∨ ∃ site report, g.site id = .ok site ∧
    site.kind.family.strides site = .ok report
  wishes : ∀ {e req}, reqs[e.index]?.join = some req ↔ ∃ id, id ∉ rest ∧ g.AsksAt id e req

theorem Noted.step {id : StageId} {rest : List StageId} {site : Site} {report : Report StrideReq}
    (wf : g.WellFormed) (h : Noted g (id :: rest) reqs) (hsite : g.site id = .ok site)
    (hreport : site.kind.family.strides site = .ok report) : Noted g rest (noteReqs reqs (site.asked report)) := by
  have hs := (site_eq_ok.1 hsite).1
  have hnodup := List.nodup_cons.1 h.nodup
  have own {p : EdgeId × Option StrideReq} (hp : p ∈ site.asked report) : ∃ kind, p.1 ∈ site.stage.slots kind := by
    obtain ⟨kind, k, he, _⟩ := Site.mem_asked.1 hp
    exact ⟨kind, List.mem_of_getElem? he⟩
  refine ⟨size_noteReqs.trans h.size, hnodup.2, fun {x s} hx => ?_, fun {e req} =>
    ⟨fun hreq => ?_, fun hasks => ?_⟩⟩
  · rcases h.speak hx with hmem | hspeaks
    · rcases List.mem_cons.1 hmem with rfl | hmem
      · exact .inr ⟨site, report, hsite, hreport⟩
      · exact .inl hmem
    · exact .inr hspeaks
  · rcases mem_of_noteReqs hreq with hmem | hreq
    · exact ⟨id, hnodup.1, site, report, hsite, hreport, hmem⟩
    · obtain ⟨x, hx, hasks⟩ := h.wishes.1 hreq
      exact ⟨x, fun hmem => hx (List.mem_cons_of_mem _ hmem), hasks⟩
  · obtain ⟨x, hx, hasks⟩ := hasks
    by_cases hxid : x = id
    · subst hxid
      obtain ⟨site', report', hsite', hreport', hmem⟩ := hasks
      rw [hsite, Except.ok.injEq] at hsite'
      subst hsite'
      rw [hreport, Except.ok.injEq] at hreport'
      subst hreport'
      obtain ⟨kind, he⟩ := own hmem
      obtain ⟨_, _, _, _, hr, _⟩ := wf.edge_of_mem hs he
      rw [noteReqs_mem (wf.nodup_asked hsite report) (h.size ▸ lt_of_edge? hr) hmem, Option.join_some]
    · -- The edge belongs to another stage.
      obtain ⟨s, kind, hs', he⟩ := hasks.owner
      rw [noteReqs_other fun p hp heq => ?_]
      · refine h.wishes.2 ⟨x, fun hmem => ?_, hasks⟩
        rcases List.mem_cons.1 hmem with heq | hmem
        · exact hxid heq
        · exact hx hmem
      · obtain ⟨kind', he'⟩ := own hp
        exact hxid (wf.owner_unique hs' he hs (heq ▸ he')).1

/-- What is noted is what stages ask for, and every stage can say what it asks for. -/
theorem WellFormed.edgeReqs_eq_ok (wf : g.WellFormed) (h : g.edgeReqs = .ok reqs) :
    (∀ {id s}, g.stage? id = some s → ∃ site report, g.site id = .ok site ∧
      site.kind.family.strides site = .ok report) ∧
      ∀ {e req}, reqs[e.index]?.join = some req ↔ ∃ id, g.AsksAt id e req := by
  obtain ⟨order, horder, h⟩ := Outcome.bind_eq_ok.1 h
  have live {id : StageId} {s : Stage} (hs : g.stage? id = some s) : id ∈ order :=
    (runOrder_perm horder).mem_iff.2 (mem_liveIds.2 ⟨s, hs⟩)
  have start : Noted g order (Array.replicate g.edges.size none) := by
    refine ⟨Array.size_replicate, (runOrder_perm horder).nodup_iff.2 g.nodup_liveIds, fun hs => .inl (live hs), ?_⟩
    intro e req
    constructor
    · intro hreq
      rw [Array.getElem?_replicate] at hreq
      split at hreq <;> cases hreq
    · rintro ⟨id, hid, hasks⟩
      obtain ⟨s, _, hs, _⟩ := hasks.owner
      exact absurd (live hs) hid
  have done : Noted g [] reqs := by
    refine Outcome.foldlM_keeps (Noted g) (fun id rest reqs reqs' hn h => ?_) start h
    simp only [Outcome.bind_eq_ok, Outcome.pure_eq_ok] at h
    obtain ⟨site, hsite, report, hreport, rfl⟩ := h
    have := hn.step wf hsite hreport
    rwa [Site.asked, noteReqs, List.foldl_append] at this
  refine ⟨fun hs => (done.speak hs).resolve_left (by simp), fun {e req} => ?_⟩
  rw [done.wishes]
  simp

end Graph

end NetLower
