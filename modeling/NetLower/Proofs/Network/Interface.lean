/-
What the caller has to know.  Layers add tensors of their own, and the passes more of them,
but none that the caller sees; those keep their numbers, are dense and in canonical order,
and are stacked in areas that hold nothing else.  So where they lie can be told from the
tensors that a network declares, whatever its layers are and however they are lowered.
-/
import NetLower.Proofs.Network.Reads

namespace NetLower

open NetLower.Graph

/-- What a tensor is called, and what shape it has. -/
structure Signature where
  name : String
  dtype : ElementType
  dims : List Nat

def TensorInfo.signature (t : TensorInfo) : Signature := ⟨t.name, t.dtype, t.shape⟩

def Data.signature (d : Data) : Signature := ⟨d.name, d.desc.dtype, d.desc.dims⟩

/-- The tensors of a kind, in the order of the network. -/
def Network.declared (n : Network) (kind : TensorKind) : List Signature :=
  (n.tensors.filter fun t => t.kind = kind).map TensorInfo.signature

/-- The use of the tensors of a kind. -/
def TensorKind.usage : TensorKind → Usage
  | input => .input
  | output => .output
  | weight => .const
  | intermediate => .intermediate

theorem TensorInfo.usage_role {t : TensorInfo} {kind : TensorKind} :
    t.role.usage = kind.usage ↔ t.kind = kind := by
  unfold TensorInfo.role
  cases t.kind <;> cases kind <;> simp [Role.usage, TensorKind.usage]

/-- An area is for the tensors of one use. -/
theorem Usage.area?_inj {u u' : Usage} {area : MemoryArea} (h : u.area? = some area) (h' : u'.area? = some area) :
    u' = u := by
  rw [← h] at h'
  revert h'
  cases u <;> cases u' <;> simp [Usage.area?]

/-! ## Tensors of a use -/

/-- Lists that show the same at every place show the same in all. -/
theorem filterMap_eq_of_getElem? {f : α → Option β} {as as' : List α}
    (h : ∀ k : Nat, as'[k]?.bind f = as[k]?.bind f) : as'.filterMap f = as.filterMap f := by
  have hidden {as : List α} (h : ∀ k : Nat, as[k]?.bind f = none) : as.filterMap f = [] := by
    refine List.filterMap_eq_nil_iff.2 fun a ha => ?_
    obtain ⟨k, hk⟩ := List.mem_iff_getElem?.1 ha
    simpa [hk] using h k
  induction as generalizing as' with
  | nil => exact hidden fun k => by simpa using h k
  | cons a as ih =>
    cases as' with
    | nil => exact (hidden fun k => by simpa using (h k).symm).symm
    | cons a' as' =>
      have hfirst : f a' = f a := by simpa using h 0
      have hrest := @ih as' fun k => by simpa using h (k + 1)
      rw [List.filterMap_cons, List.filterMap_cons, hfirst, hrest]

namespace Graph

variable {g g' : Graph} {u : Usage} {area : MemoryArea}

/-- The tensors of a use, in order of creation. -/
def used (g : Graph) (u : Usage) : List Data := g.datas.toList.filter fun d => d.usage = u

theorem mem_used {d : Data} : d ∈ g.used u ↔ (∃ id, g.data? id = some d) ∧ d.usage = u := by
  rw [used, List.mem_filter, decide_eq_true_iff, List.mem_iff_getElem?]
  refine and_congr_left fun _ => ⟨fun ⟨k, hk⟩ => ⟨⟨k⟩, ?_⟩, fun ⟨id, hid⟩ => ⟨id.index, ?_⟩⟩
  · exact Array.getElem?_toList.symm.trans hk
  · exact Array.getElem?_toList.trans hid

/-- The identifiers lead to the tensors. -/
theorem used_of_datasUsed (g : Graph) (u : Usage) :
    List.Forall₂ (fun id d => g.data? id = some d) (g.datasUsed u) (g.used u) := by
  have from_start : ∀ (ds : List Data) (start : Nat), (∀ k d, ds[k]? = some d → g.data? ⟨start + k⟩ = some d) →
      List.Forall₂ (fun id d => g.data? id = some d)
        ((ds.zipIdx start).filterMap fun p => if p.1.usage = u then some ⟨p.2⟩ else none)
        (ds.filter fun d => d.usage = u) := by
    intro ds
    induction ds with
    | nil => exact fun _ _ => .nil
    | cons d ds ih =>
      intro start hget
      have hrest := ih (start + 1) fun k x hx => by simpa [Nat.add_comm, Nat.add_left_comm] using hget (k + 1) x hx
      by_cases hu : d.usage = u
      · simp only [List.zipIdx_cons, List.filterMap_cons, List.filter_cons, hu, decide_true, if_true]
        exact .cons (hget 0 d rfl) hrest
      · simpa [List.zipIdx_cons, hu] using hrest
  refine from_start g.datas.toList 0 fun k d hk => ?_
  rw [Nat.zero_add]
  exact Array.getElem?_toList.symm.trans hk

/-- The faces that the caller sees, in order of creation. -/
def interface (g : Graph) : List Face := g.datas.toList.filterMap Data.outer?

theorem faces_used (hu : u = .input ∨ u = .output) :
    (g.used u).map Data.face = g.interface.filter fun f => f.usage = u := by
  unfold used interface
  induction g.datas.toList with
  | nil => rfl
  | cons d ds ih =>
    by_cases hd : d.usage = u
    · have hout : d.outer? = some d.face := Data.outer?_eq_some.2 ⟨hd ▸ hu, rfl⟩
      have hface : d.face.usage = u := hd
      simp only [List.filter_cons, hd, decide_true, if_true, List.map_cons, List.filterMap_cons, hout, hface, ih]
    · cases hout : d.outer? with
      | none => simp [hd, hout, ih]
      | some f =>
        obtain ⟨_, rfl⟩ := Data.outer?_eq_some.1 hout
        have hface : d.face.usage ≠ u := hd
        simp [hd, hout, hface, ih]

theorem SameInterface.faces_eq (h : SameInterface g g') (hu : u = .input ∨ u = .output) :
    (g'.used u).map Data.face = (g.used u).map Data.face := by
  rw [faces_used hu, faces_used hu]
  refine congrArg _ (filterMap_eq_of_getElem? fun k => ?_)
  rw [Array.getElem?_toList, Array.getElem?_toList]
  exact h ⟨k⟩

/-- What the caller sees is what needs a place in its area. -/
theorem neededArea?_outer {d : Data} (hu : u = .input ∨ u = .output) (harea : u.area? = some area) :
    d.neededArea? = some area ↔ d.usage = u := by
  rw [neededArea?_eq_some]
  constructor
  · exact fun h => Usage.area?_inj harea h.1
  · intro hd
    rw [hd]
    exact ⟨harea, hu.imp_right .inl⟩

end Graph

/-! ## Before the passes -/

namespace Layer

variable {l : Layer} {g g' : Graph} {d : DataId}

theorem duplicate_sameOutside {source : DataId} {suffix : String} {desc : Desc}
    (h : g.duplicate source suffix desc = .ok (d, g')) : SameOutside g g' := by
  obtain ⟨_, _, _, _, _, _, _, _, rfl⟩ := duplicate_eq_ok.1 h
  exact .pushData ⟨rfl, rfl, rfl, rfl⟩

/-- The constants of a layer are none of the caller's tensors. -/
theorem Consts.sameOutside {consts : List DataId} (h : l.Consts g consts g') : SameOutside g g' := by
  cases h with
  | without => exact .refl
  | weighted _ hweights hbiases =>
    obtain ⟨_, _, _, _, hweights⟩ := addWeights_eq_ok hweights
    refine (duplicate_sameOutside hweights).trans ?_
    rcases addBiases_eq_ok hbiases with ⟨_, h⟩ | ⟨_, _, _, _, _, _, h⟩
    · rcases addPlaceholder_eq_ok h with ⟨_, rfl⟩ | ⟨_, _, _, _, rfl⟩
      · exact .refl
      · exact .pushData ⟨rfl, rfl, rfl, rfl⟩
    · exact duplicate_sameOutside h

end Layer

/-- The tensor goes by the name, and its descriptor is the one that a network's tensor of this shape
gets. -/
structure Signature.Names (sig : Signature) (f : Face) : Prop where
  name : f.name = sig.name
  desc : Desc.new sig.dtype sig.dims = .ok f.desc

theorem names_of_stand {ts : List TensorInfo} {ds : List Data} (h : List.Forall₂ TensorInfo.Stands ts ds)
    (kind : TensorKind) :
    List.Forall₂ Signature.Names ((ts.filter fun t => t.kind = kind).map TensorInfo.signature)
      ((ds.filter fun d => d.usage = kind.usage).map Data.face) := by
  induction h with
  | nil => exact .nil
  | @cons t d ts ds hd _ ih =>
    obtain ⟨desc, hdesc, rfl⟩ := hd
    have husage : Data.usage { name := t.name, desc, role := t.role } = kind.usage ↔ t.kind = kind := t.usage_role
    by_cases ht : t.kind = kind
    · simp only [List.filter_cons, ht, husage.2 ht, decide_true, if_true, List.map_cons]
      exact .cons ⟨rfl, hdesc⟩ ih
    · simpa [ht, mt husage.1 ht] using ih

namespace Network

variable {n : Network} {config : Config} {g : Graph} {kind : TensorKind}

/-- Layers change nothing about the tensors of the network. -/
theorem graph_sameOutside (h : n.graph config = .ok g) :
    ∃ g₁, List.Forall₂ TensorInfo.Stands n.tensors g₁.datas.toList ∧ SameOutside g₁ g := by
  simp only [Network.graph, Outcome.bind_eq_ok] at h
  obtain ⟨_, _, g₁, htensors, hlayers⟩ := h
  refine ⟨g₁, (tensors_stand htensors).1, ?_⟩
  refine Outcome.foldlM_keeps (fun _ x => SameOutside g₁ x) (fun l _ x x' hx h => ?_) .refl hlayers
  simp only [Outcome.bind_eq_ok] at h
  obtain ⟨_, _, _, _, h⟩ := h
  obtain ⟨_, _, _, _, _, _, _, _, _, _, hconsts, hadd, _⟩ := Layer.addTo_eq_ok h
  exact (hx.trans hconsts.sameOutside).trans (.added hadd)

/-- The caller sees the tensors that the network declares. -/
theorem graph_names (h : n.graph config = .ok g) (hkind : kind.usage = .input ∨ kind.usage = .output) :
    List.Forall₂ Signature.Names (n.declared kind) ((g.used kind.usage).map Data.face) := by
  obtain ⟨g₁, hstand, same⟩ := graph_sameOutside h
  rw [same.interface.faces_eq hkind]
  exact names_of_stand hstand kind

theorem graph_inAreas (h : n.graph config = .ok g) : g.InAreas := by
  obtain ⟨g₁, hstand, same⟩ := graph_sameOutside h
  refine same.areas fun d node hnode l hl => ?_
  obtain ⟨t, _, desc, _, rfl⟩ := forall₂_getElem? hstand.flip (Array.getElem?_toList.trans hnode)
  cases hl

end Network

/-! ## After the passes -/

/-- What becomes of a tensor that the network declares and the caller sees. -/
structure Data.Presents (area : MemoryArea) (sig : Signature) (d : Data) : Prop where
  names : sig.Names d.face
  strides : ∃ strides, d.desc.strides .compact = .ok strides ∧ d.strides = some strides
  area : d.neededArea? = some area

/-- The tensors of a use, as the caller finds them: stacked in an area that holds nothing else. -/
structure Graph.Offers (g : Graph) (sigs : List Signature) (u : Usage) (area : MemoryArea) : Prop where
  presents : List.Forall₂ (Data.Presents area) sigs (g.used u)
  stacked : Data.Stacked area 0 (g.used u)
  alone : ∀ id d l, g.data? id = some d → d.location = some l → l.area = area → d ∈ g.used u

/-- A tensor in two graphs, each of which lays it out as the other one does. -/
structure Data.Alike (area : MemoryArea) (sig : Signature) (d d' : Data) : Prop where
  signature : d.signature = sig ∧ d'.signature = sig
  desc : d'.desc = d.desc
  order : Order.canonical? sig.dims.length = some d.desc.order
  strides : ∃ strides, d.strides = some strides ∧ d'.strides = some strides ∧ d.desc.Meets strides .compact
  place : ∃ offset, d.location = some ⟨area, offset⟩ ∧ d'.location = some ⟨area, offset⟩

/-- Two graphs show the caller the declared tensors, and lay them out alike one by one. -/
structure Graph.SameSide (area : MemoryArea) (sigs : List Signature) (g g' : Graph)
    (ids ids' : List DataId) : Prop where
  counts : ids.length = sigs.length ∧ ids'.length = sigs.length
  each : ∀ (k : Nat) sig, sigs[k]? = some sig → ∃ id id' d d', ids[k]? = some id ∧ ids'[k]? = some id' ∧
    g.data? id = some d ∧ g'.data? id' = some d' ∧ d.Alike area sig d'

namespace Data.Presents

variable {area : MemoryArea} {sig : Signature} {d d' : Data}

theorem desc_eq (h : d.Presents area sig) (h' : d'.Presents area sig) : d'.desc = d.desc :=
  Except.ok.inj (h'.names.desc.symm.trans h.names.desc)

theorem signature_eq (h : d.Presents area sig) : d.signature = sig := by
  obtain ⟨hdtype, hdims, _⟩ := Desc.new_eq_ok h.names.desc
  have hname : d.name = sig.name := h.names.name
  rw [Data.signature, hname]
  exact congrArg₂ (Signature.mk sig.name) hdtype hdims

/-- The layout follows from what is declared, up to the offset. -/
theorem alike (h : d.Presents area sig) (h' : d'.Presents area sig) {offset : Nat}
    (hl : d.location = some ⟨area, offset⟩) (hl' : d'.location = some ⟨area, offset⟩) : d.Alike area sig d' := by
  have hdesc := h.desc_eq h'
  obtain ⟨strides, hcomputed, hstrides⟩ := h.strides
  obtain ⟨strides', hcomputed', hstrides'⟩ := h'.strides
  rw [hdesc, hcomputed, Except.ok.injEq] at hcomputed'
  subst hcomputed'
  have hmeets := Desc.meets_of_strides hcomputed StrideReq.Covers.refl.serves
  exact ⟨⟨h.signature_eq, h'.signature_eq⟩, hdesc, (Desc.new_eq_ok h.names.desc).2.2,
    ⟨strides, hstrides, hstrides', hmeets⟩, offset, hl, hl'⟩

end Data.Presents

theorem Data.Alike.takes {area : MemoryArea} {sig : Signature} {d d' : Data} {size : Nat} (h : d.Alike area sig d')
    (hsize : d.Takes size) : d'.Takes size := by
  obtain ⟨strides, hstrides, hstrides', _⟩ := h.strides
  rw [Data.Takes, h.desc, hstrides', ← hstrides]
  exact hsize

/-- Tensors that are stacked from the same offset on have the same places. -/
theorem Data.Stacked.alike {area : MemoryArea} {offset : Nat} {sigs : List Signature} {ds ds' : List Data}
    (hs : Stacked area offset ds) (hs' : Stacked area offset ds') (h : List.Forall₂ (Data.Presents area) sigs ds)
    (h' : List.Forall₂ (Data.Presents area) sigs ds') {k : Nat} {d d' : Data} {sig : Signature}
    (hsig : sigs[k]? = some sig) (hd : ds[k]? = some d) (hd' : ds'[k]? = some d') : d.Alike area sig d' := by
  induction h generalizing ds' offset k with
  | nil => simp at hsig
  | cons hx hrest ih =>
    cases h' with
    | cons hx' hrest' =>
    cases hs with
    | elsewhere hne => exact absurd hx.area hne
    | here _ htakes hroom hl hs =>
    cases hs' with
    | elsewhere hne => exact absurd hx'.area hne
    | here _ htakes' hroom' hl' hs' =>
    have first := hx.alike hx' hl hl'
    cases k with
    | zero =>
      simp only [List.getElem?_cons_zero, Option.some.injEq] at hsig hd hd'
      subst hsig hd hd'
      exact first
    | succ k =>
      rw [htakes'.unique (first.takes htakes), hroom, Except.ok.injEq] at hroom'
      subst hroom'
      exact ih hs hs' hrest' hsig hd hd'

/-! ## Two graphs -/

namespace Graph.Offers

variable {g g' : Graph} {sigs : List Signature} {u : Usage} {area : MemoryArea} {b b' : Blob}

theorem alike (h : g.Offers sigs u area) (h' : g'.Offers sigs u area) {k : Nat} {sig : Signature}
    (hsig : sigs[k]? = some sig) :
    ∃ d d', (g.used u)[k]? = some d ∧ (g'.used u)[k]? = some d' ∧ d.Alike area sig d' := by
  obtain ⟨d, hd, _⟩ := forall₂_getElem? h.presents hsig
  obtain ⟨d', hd', _⟩ := forall₂_getElem? h'.presents hsig
  exact ⟨d, d', hd, hd', h.stacked.alike h'.stacked h.presents h'.presents hsig hd hd'⟩

theorem sameSide (h : g.Offers sigs u area) (h' : g'.Offers sigs u area) :
    SameSide area sigs g g' (g.datasUsed u) (g'.datasUsed u) := by
  have hids := used_of_datasUsed g u
  have hids' := used_of_datasUsed g' u
  refine ⟨⟨hids.length_eq.trans h.presents.length_eq.symm, hids'.length_eq.trans h'.presents.length_eq.symm⟩, ?_⟩
  intro k sig hsig
  obtain ⟨d, d', hd, hd', halike⟩ := h.alike h' hsig
  obtain ⟨id, hid, hdata⟩ := forall₂_getElem? hids.flip hd
  obtain ⟨id', hid', hdata'⟩ := forall₂_getElem? hids'.flip hd'
  exact ⟨id, id', d, d', hid, hid', hdata, hdata', halike⟩

/-- What one graph has in the area, the other one has as well; so it reaches no further. -/
theorem extents_le (h : g.Offers sigs u area) (h' : g'.Offers sigs u area) {sizes sizes' : AreaSizes}
    (hsizes : g.extents = .ok sizes) (hsizes' : g'.extents = .ok sizes') : sizes.get area ≤ sizes'.get area := by
  refine Graph.extents_le hsizes fun id d l size hd hl hla htakes => ?_
  obtain ⟨k, hk⟩ := List.mem_iff_getElem?.1 (h.alone id d l hd hl hla)
  obtain ⟨sig, hsig, _⟩ := forall₂_getElem? h.presents.flip hk
  obtain ⟨x, d', hx, hd', halike⟩ := h.alike h' hsig
  rw [hk, Option.some.injEq] at hx
  subst hx
  obtain ⟨offset, hoffset, hoffset'⟩ := halike.place
  rw [hl, Option.some.injEq] at hoffset
  subst hoffset
  obtain ⟨⟨id', hdata'⟩, _⟩ := mem_used.1 (List.mem_of_getElem? hd')
  exact le_extents hsizes' hdata' hoffset' (halike.takes htakes)

theorem areaSize_eq (h : g.Offers sigs u area) (h' : g'.Offers sigs u area) (hb : g.blob = .ok b)
    (hb' : g'.blob = .ok b') : b.header.areaSize area = b'.header.areaSize area := by
  obtain ⟨sizes, hsizes, hstated⟩ := areaSize_of_blob hb
  obtain ⟨sizes', hsizes', hstated'⟩ := areaSize_of_blob hb'
  rw [hstated, hstated']
  exact Nat.le_antisymm (h.extents_le h' hsizes hsizes') (h'.extents_le h hsizes' hsizes)

end Graph.Offers

/-! ## Two networks -/

namespace Network

variable {n n' : Network} {config config' : Config} {g g' lowered lowered' : Graph} {b b' : Blob}
  {kind : TensorKind} {area : MemoryArea}

/-- A lowered network offers the tensors that it declares. -/
theorem offers_of_lower (hg : n.graph config = .ok g) (h : g.lower config = .ok lowered)
    (hkind : kind.usage = .input ∨ kind.usage = .output) (harea : kind.usage.area? = some area) :
    lowered.Offers (n.declared kind) kind.usage area := by
  obtain ⟨st⟩ := stations_of_lower h
  have wf := graph_wellFormed hg
  have same := st.sameOutside wf
  refine ⟨?_, ?_, fun id d l hd hl hla => ?_⟩
  · have hnames := graph_names hg hkind
    rw [← same.interface.faces_eq hkind, List.forall₂_map_right_iff, List.forall₂_iff_zip] at hnames
    refine List.forall₂_iff_zip.2 ⟨hnames.1, fun {sig d} hmem => ?_⟩
    obtain ⟨⟨id, hd⟩, hu⟩ := mem_used.1 (List.of_mem_zip hmem).2
    obtain ⟨strides, hstrides, hstrided⟩ := st.strided hd
    rw [st.dense wf hd (hu ▸ hkind)] at hstrides
    exact ⟨hnames.2 hmem, ⟨strides, hstrides, hstrided⟩, (neededArea?_outer hkind harea).2 hu⟩
  · obtain ⟨_, hmemory⟩ := st.memory
    refine (allocateMemory_stacked area hmemory).filter fun d => ?_
    rw [neededArea?_outer hkind harea, decide_eq_true_iff]
  · have husage := same.areas (graph_inAreas hg) id d hd l hl
    exact mem_used.2 ⟨⟨id, hd⟩, Usage.area?_inj harea (hla ▸ husage)⟩

/-- What the caller has to know of a compiled network depends on nothing but the tensors that the
network declares: where two networks declare the same inputs, the inputs are laid out alike in both
and their areas have one size; and so for outputs. -/
theorem interface_independent (hg : n.graph config = .ok g) (h : g.lower config = .ok lowered)
    (hb : lowered.blob = .ok b) (hg' : n'.graph config' = .ok g') (h' : g'.lower config' = .ok lowered')
    (hb' : lowered'.blob = .ok b') :
    (n.declared .input = n'.declared .input →
      SameSide .input (n.declared .input) lowered lowered' lowered.inputs lowered'.inputs ∧
        b.header.inputSize = b'.header.inputSize) ∧
      (n.declared .output = n'.declared .output →
        SameSide .output (n.declared .output) lowered lowered' lowered.outputs lowered'.outputs ∧
          b.header.outputSize = b'.header.outputSize) := by
  constructor
  · intro hsame
    have offers := @offers_of_lower n config g lowered .input .input hg h (.inl rfl) rfl
    have offers' := @offers_of_lower n' config' g' lowered' .input .input hg' h' (.inl rfl) rfl
    rw [← hsame] at offers'
    exact ⟨offers.sameSide offers', UInt32.toNat_inj.1 (offers.areaSize_eq offers' hb hb')⟩
  · intro hsame
    have offers := @offers_of_lower n config g lowered .output .output hg h (.inr rfl) rfl
    have offers' := @offers_of_lower n' config' g' lowered' .output .output hg' h' (.inr rfl) rfl
    rw [← hsame] at offers'
    exact ⟨offers.sameSide offers', UInt32.toNat_inj.1 (offers.areaSize_eq offers' hb hb')⟩

/-- Powers among two inputs and two outputs. -/
def twoByTwo (tensors : List (String × TensorKind)) (layers : List (String × String × String)) : Network :=
  { powers layers with
    tensors := tensors.map fun (name, kind) => { name, shape := [1], kind }
    inputs := ["x", "y"], outputs := ["u", "v"] }

/-- Either input is raised to one output. -/
def parallel : Network :=
  twoByTwo [("x", .input), ("y", .input), ("u", .output), ("v", .output)] [("left", "x", "u"), ("right", "y", "v")]

/-- Inputs and outputs stand among each other, the inputs change sides and one of them is raised
twice. -/
def crossed : Network :=
  twoByTwo [("u", .output), ("x", .input), ("between", .intermediate), ("v", .output), ("y", .input)]
    [("up", "x", "v"), ("down", "y", "between"), ("further", "between", "u")]

/-- A tensor of the powers at an offset. -/
def powerDataAt (name : String) (role : Role) (location : Location) (producer : Option EdgeId)
    (consumers : List EdgeId) : Data :=
  { powerData name role location.area producer consumers with location := some location }

def parallelLowered : Graph :=
  { name := "powers"
    datas := #[powerDataAt "x" .input ⟨.input, 0⟩ none [⟨0⟩], powerDataAt "y" .input ⟨.input, 64⟩ none [⟨2⟩],
      powerDataAt "u" .output ⟨.output, 0⟩ (some ⟨1⟩) [], powerDataAt "v" .output ⟨.output, 64⟩ (some ⟨3⟩) []]
    stages := #[some (powerStage "left" ⟨0⟩ ⟨1⟩), some (powerStage "right" ⟨2⟩ ⟨3⟩)]
    edges := #[⟨.input, ⟨0⟩, ⟨0⟩, 0⟩, ⟨.output, ⟨2⟩, ⟨0⟩, 0⟩, ⟨.input, ⟨1⟩, ⟨1⟩, 0⟩, ⟨.output, ⟨3⟩, ⟨1⟩, 0⟩] }

def crossedLowered : Graph :=
  { name := "powers"
    datas := #[powerDataAt "u" .output ⟨.output, 0⟩ (some ⟨5⟩) [], powerDataAt "x" .input ⟨.input, 0⟩ none [⟨0⟩],
      powerDataAt "between" .intermediate ⟨.bss, 0⟩ (some ⟨3⟩) [⟨4⟩],
      powerDataAt "v" .output ⟨.output, 64⟩ (some ⟨1⟩) [], powerDataAt "y" .input ⟨.input, 64⟩ none [⟨2⟩]]
    stages := #[some (powerStage "up" ⟨0⟩ ⟨1⟩), some (powerStage "down" ⟨2⟩ ⟨3⟩),
      some (powerStage "further" ⟨4⟩ ⟨5⟩)]
    edges := #[⟨.input, ⟨1⟩, ⟨0⟩, 0⟩, ⟨.output, ⟨3⟩, ⟨0⟩, 0⟩, ⟨.input, ⟨4⟩, ⟨1⟩, 0⟩, ⟨.output, ⟨2⟩, ⟨1⟩, 0⟩,
      ⟨.input, ⟨2⟩, ⟨2⟩, 0⟩, ⟨.output, ⟨0⟩, ⟨2⟩, 0⟩] }

/-- The inputs of the two networks are in the same places, and so are the outputs. -/
theorem parallel_crossed_interface :
    ∃ g g' lowered lowered' b b', parallel.graph { hwOptimization := false } = .ok g ∧
      g.lower { hwOptimization := false } = .ok lowered ∧ lowered.blob = .ok b ∧
      crossed.graph { hwOptimization := false, hwDilation := true } = .ok g' ∧
      g'.lower { hwOptimization := false, hwDilation := true } = .ok lowered' ∧ lowered'.blob = .ok b' ∧
      parallel.declared .input = crossed.declared .input ∧ parallel.declared .output = crossed.declared .output ∧
      (SameSide .input (parallel.declared .input) lowered lowered' lowered.inputs lowered'.inputs ∧
        b.header.inputSize = b'.header.inputSize) ∧
      (SameSide .output (parallel.declared .output) lowered lowered' lowered.outputs lowered'.outputs ∧
        b.header.outputSize = b'.header.outputSize) := by
  have hlowered : (do (← parallel.graph { hwOptimization := false }).lower { hwOptimization := false }) =
      .ok parallelLowered := by decide +kernel
  have hlowered' : (do
      (← crossed.graph { hwOptimization := false, hwDilation := true }).lower
        { hwOptimization := false, hwDilation := true }) = .ok crossedLowered := by decide +kernel
  have horder : parallelLowered.runOrder = .ok [⟨1⟩, ⟨0⟩] := by decide +kernel
  have horder' : crossedLowered.runOrder = .ok [⟨1⟩, ⟨2⟩, ⟨0⟩] := by decide +kernel
  obtain ⟨b, hb⟩ : ∃ b, parallelLowered.blob = .ok b := by
    rw [← Outcome.isOk_iff, blob, horder]
    decide +kernel
  obtain ⟨b', hb'⟩ : ∃ b', crossedLowered.blob = .ok b' := by
    rw [← Outcome.isOk_iff, blob, horder']
    decide +kernel
  rw [Outcome.bind_eq_ok] at hlowered hlowered'
  obtain ⟨g, hg, h⟩ := hlowered
  obtain ⟨g', hg', h'⟩ := hlowered'
  have same := interface_independent hg h hb hg' h' hb'
  exact ⟨g, g', _, _, b, b', hg, h, hb, hg', h', hb', rfl, rfl, same.1 rfl, same.2 rfl⟩

end Network

end NetLower
