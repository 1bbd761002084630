import Mathlib.Data.List.Permutation
import SeriesTable.Proofs.Page.Merge

/-
  The page of a cluster, cell by cell. `Has` says what stands for a source at an instant, missing
  values included, and `Foremost` which value is the first of several blocks that is not missing.
  The merge reads samples as partial functions of time (`known?`); here the reading is turned back
  into cells (`foremost_iff`, `has_iff`).

  Main statement: `ofCluster_reconciles`, for every cluster of sound blocks.
-/

namespace SeriesTable

/-! ## What stands at an instant -/

/-- The column, over these instants, has this value at one of them. -/
def Column.Has (c : Column) (instants : List Int) (t : Int) (v : Value) : Prop :=
  ∃ i : Nat, instants[i]? = some t ∧ c.values[i]? = some v

namespace Block

variable {b : Block} {bs : List Block} {source : String} {t : Int} {v : Value}

/-- The block has this value of a source at an instant. It may be missing there. -/
def Has (b : Block) (source : String) (t : Int) (v : Value) : Prop :=
  ∃ c, b.column? source = some c ∧ c.Has b.instants t v

/-- Of the values that some blocks have of a source at an instant, the first that is not missing;
missing if there is none. -/
def Foremost (bs : List Block) (source : String) (t : Int) (v : Value) : Prop :=
  (v = .null ∧ ∀ b ∈ bs, ∀ w, b.Has source t w → w = .null) ∨
    v ≠ .null ∧ ∃ before b after, bs = before ++ b :: after ∧ b.Has source t v ∧
      ∀ d ∈ before, ∀ w, d.Has source t w → w = .null

theorem Sound.known?_eq_some_iff (h : b.Sound) :
    b.known? source t = some v ↔ v ≠ .null ∧ b.Has source t v := by
  rw [known?, Option.bind_eq_some_iff]
  constructor
  · rintro ⟨c, hc, hknown⟩
    obtain ⟨hv, hhas⟩ := (Column.known?_eq_some_iff h.increasing.nodup).mp hknown
    exact ⟨hv, c, hc, hhas⟩
  · rintro ⟨hv, c, hc, hhas⟩
    exact ⟨c, hc, (Column.known?_eq_some_iff h.increasing.nodup).mpr ⟨hv, hhas⟩⟩

theorem Sound.known?_eq_none_iff (h : b.Sound) :
    b.known? source t = none ↔ ∀ w, b.Has source t w → w = .null := by
  rw [Option.eq_none_iff_forall_ne_some]
  refine forall_congr' fun w => ?_
  rw [ne_eq, h.known?_eq_some_iff]
  constructor
  · exact fun hnot hhas => Decidable.byContradiction fun hw => hnot ⟨hw, hhas⟩
  · rintro hnull ⟨hw, hhas⟩
    exact hw (hnull hhas)

/-- The foremost value is that of the first block that knows one. -/
theorem foremost_iff (hb : ∀ b ∈ bs, b.Sound) :
    Foremost bs source t v ↔ v = (bs.findSome? fun b => b.known? source t).getD .null := by
  constructor
  · rintro (⟨rfl, hnull⟩ | ⟨hv, before, b, after, rfl, hhas, hbefore⟩)
    · have hnone : (bs.findSome? fun b => b.known? source t) = none :=
        List.findSome?_eq_none_iff.mpr fun b hmem =>
          (hb b hmem).known?_eq_none_iff.mpr (hnull b hmem)
      rw [hnone]
      rfl
    · have hmem : b ∈ before ++ b :: after := List.mem_append_right _ (List.mem_cons_self ..)
      have hfirst : ((before ++ b :: after).findSome? fun b => b.known? source t) = some v := by
        refine List.findSome?_eq_some_iff.mpr ⟨before, b, after, rfl, ?_, fun d hd => ?_⟩
        · exact (hb b hmem).known?_eq_some_iff.mpr ⟨hv, hhas⟩
        · exact (hb d (List.mem_append_left _ hd)).known?_eq_none_iff.mpr (hbefore d hd)
      rw [hfirst]
      rfl
  · rintro rfl
    cases hfound : bs.findSome? fun b => b.known? source t with
    | none =>
      have hnone := List.findSome?_eq_none_iff.mp hfound
      exact .inl ⟨rfl, fun b hmem => (hb b hmem).known?_eq_none_iff.mp (hnone b hmem)⟩
    | some v =>
      obtain ⟨before, b, after, rfl, hknown, hnone⟩ := List.findSome?_eq_some_iff.mp hfound
      have hmem : b ∈ before ++ b :: after := List.mem_append_right _ (List.mem_cons_self ..)
      obtain ⟨hv, hhas⟩ := (hb b hmem).known?_eq_some_iff.mp hknown
      refine .inr ⟨hv, before, b, after, rfl, hhas, fun d hd => ?_⟩
      exact (hb d (List.mem_append_left _ hd)).known?_eq_none_iff.mp (hnone d hd)

end Block

/-! ## Pages -/

theorem Cluster.mem_sources_iff {c : Cluster} {source : String} :
    source ∈ c.sources ↔ ∃ b ∈ c.blocks, source ∈ b.sources := by
  rw [sources, SortedMap.mem_keys_ofList, List.map_flatMap, List.mem_flatMap]
  simp

namespace Page

variable {p : Page} {source : String} {t : Int} {v : Value}

/-- The page has this value of a source at an instant. It may be missing there. -/
def Has (p : Page) (source : String) (t : Int) (v : Value) : Prop :=
  ∃ c, p.column? source = some c ∧ c.Has p.instants t v

/-- Every source of a page has one value at every instant of it. -/
theorem has_iff : p.Has source t v ↔
    source ∈ p.columns.keys ∧ t ∈ p.instants ∧ v = (p.known? source t).getD .null := by
  constructor
  · rintro ⟨c, hc, row, ht, hv⟩
    refine ⟨SortedMap.mem_keys_iff.mpr ⟨c, hc⟩, List.mem_of_getElem? ht, ?_⟩
    rw [← getD_known? ht, hc, Option.bind_some, hv]
    rfl
  · rintro ⟨hsource, ht, rfl⟩
    obtain ⟨c, hc⟩ := SortedMap.mem_keys_iff.mp hsource
    obtain ⟨row, hrow, rfl⟩ := List.getElem_of_mem ht
    have ht : p.instants[row]? = some p.instants[row] := List.getElem?_eq_getElem hrow
    have hlength : c.values.length = p.instants.length :=
      p.lengths (source, c) (SortedMap.find?_eq_some_iff.mp hc)
    have hv := List.getElem?_eq_getElem (hlength ▸ hrow)
    refine ⟨c, hc, row, ht, ?_⟩
    rw [← getD_known? ht, column?, hc, Option.bind_some, hv]
    rfl

/-- The page has all instants and all sources of the blocks, each source with the kind it has there,
and at every instant the foremost value. -/
structure Reconciles (p : Page) (c : Cluster) : Prop where
  increasing : Instant.Increasing p.instants
  mem_instants : ∀ t, t ∈ p.instants ↔ ∃ b ∈ c.blocks, t ∈ b.instants
  sources : p.columns.keys = c.sources
  ordered : c.sources.Pairwise fun a b => compare a b = .lt
  mem_sources : ∀ source, source ∈ c.sources ↔ ∃ b ∈ c.blocks, source ∈ b.sources
  kinds : ∀ b ∈ c.blocks, ∀ source d, b.column? source = some d →
    (p.column? source).map Column.kind = some d.kind
  cells : ∀ source t v, p.Has source t v ↔
    source ∈ c.sources ∧ t ∈ p.instants ∧ Block.Foremost c.blocks source t v
  kept : ∀ before b after, c.blocks = before ++ b :: after → ∀ source t v, v ≠ .null →
    b.Has source t v → p.Has source t v ∨ ∃ d ∈ before, ∃ w, w ≠ .null ∧ d.Has source t w

theorem Joins.uniform {bs : List Block} (h : p.Joins bs) : Uniform (bs.map Block.columns) := by
  intro source k l hk hl
  rw [← h.declares] at hk hl
  exact Option.some.inj (hk.symm.trans hl)

theorem Joins.mem_keys_iff {bs : List Block} (h : p.Joins bs) :
    source ∈ p.columns.keys ↔ ∃ b ∈ bs, source ∈ b.sources := by
  rw [SortedMap.mem_keys_iff]
  constructor
  · rintro ⟨c, hc⟩
    obtain ⟨m, hm, hkind⟩ := (h.declares source c.kind).mp (by rw [column?, hc]; rfl)
    obtain ⟨b, hb, rfl⟩ := List.mem_map.mp hm
    obtain ⟨d, hd, -⟩ := Option.map_eq_some_iff.mp hkind
    exact ⟨b, hb, SortedMap.mem_keys_iff.mpr ⟨d, hd⟩⟩
  · rintro ⟨b, hb, hsource⟩
    obtain ⟨d, hd⟩ := SortedMap.mem_keys_iff.mp hsource
    have hdeclared : Declares (bs.map Block.columns) source d.kind :=
      ⟨b.columns, List.mem_map_of_mem hb, by rw [hd]; rfl⟩
    obtain ⟨c, hc, -⟩ := Option.map_eq_some_iff.mp ((h.declares source d.kind).mpr hdeclared)
    exact ⟨c, hc⟩

theorem Joins.keys_eq {c : Cluster} (h : p.Joins c.blocks) : p.columns.keys = c.sources := by
  refine SortedMap.keys_eq_of_contains_eq fun source => ?_
  rw [Bool.eq_iff_iff, SortedMap.contains_eq_true_iff, SortedMap.contains_eq_true_iff,
    ← SortedMap.mem_keys_iff, ← SortedMap.mem_keys_iff, h.mem_keys_iff]
  exact Cluster.mem_sources_iff.symm

theorem Joins.has_iff {c : Cluster} (h : p.Joins c.blocks) (hb : ∀ b ∈ c.blocks, b.Sound) :
    p.Has source t v ↔
      source ∈ c.sources ∧ t ∈ p.instants ∧ Block.Foremost c.blocks source t v := by
  rw [Page.has_iff, h.keys_eq, h.known?_eq, Block.foremost_iff hb]

theorem Joins.reconciles {c : Cluster} (h : p.Joins c.blocks) (hb : ∀ b ∈ c.blocks, b.Sound) :
    p.Reconciles c where
  increasing := p.increasing
  mem_instants := h.mem_instants
  sources := h.keys_eq
  ordered := SortedMap.sorted_keys _
  mem_sources _ := Cluster.mem_sources_iff
  kinds b hmem source d hd :=
    (h.declares source d.kind).mpr ⟨b.columns, List.mem_map_of_mem hmem, congrArg _ hd⟩
  cells _ _ _ := h.has_iff hb
  kept before b after heq source t v hv hhas := by
    have ⟨d, hd, row, ht, _⟩ := hhas
    have hmem : b ∈ c.blocks := heq ▸ List.mem_append_right _ (List.mem_cons_self ..)
    by_cases hshadowed : ∃ d ∈ before, ∃ w, w ≠ .null ∧ d.Has source t w
    · exact .inr hshadowed
    · refine .inl ((h.has_iff hb).mpr ⟨?_, ?_, .inr ⟨hv, before, b, after, heq, hhas, ?_⟩⟩)
      · exact Cluster.mem_sources_iff.mpr ⟨b, hmem, SortedMap.mem_keys_iff.mpr ⟨d, hd⟩⟩
      · exact (h.mem_instants t).mpr ⟨b, hmem, List.mem_of_getElem? ht⟩
      · exact fun e he w hw => Decidable.byContradiction fun hne =>
          hshadowed ⟨e, he, w, hne, hw⟩

/-- The blocks of a cluster have a page unless a source has columns of two kinds among them, and the
page has every instant and every source of them, and in every cell the first value that is not
missing. Otherwise the fault names two kinds of a source. -/
theorem ofCluster_reconciles (c : Cluster) (hb : ∀ b ∈ c.blocks, b.Sound) :
    (Uniform (c.blocks.map Block.columns) → ∃ p, ofCluster c = .ok p ∧ p.Reconciles c) ∧
      (¬ Uniform (c.blocks.map Block.columns) →
        ∃ fault, ofCluster c = .error fault ∧ fault.IsConflict (c.blocks.map Block.columns)) := by
  rcases ofRegion_cases (.merged c) hb with ⟨p, hp, hjoins⟩ | ⟨fault, hfault, hconflict⟩
  · exact ⟨fun _ => ⟨p, hp, hjoins.reconciles hb⟩, fun hnot => absurd hjoins.uniform hnot⟩
  · exact ⟨fun hu => absurd hu hconflict.not_uniform, fun _ => ⟨fault, hfault, hconflict⟩⟩

/-! Two blocks that share two instants. At the one the first block has no value, at the other both
have one. -/

def gauge : Cluster where
  first := ⟨.list [0, 10, 20], .ofList [("level", ⟨.int, [.int 1, .null, .int 3]⟩)]⟩
  second := ⟨.list [10, 20, 25], .ofList [("flow", ⟨.bool, [.bool true, .null, .null]⟩),
    ("level", ⟨.int, [.int 7, .int 8, .null]⟩)]⟩
  others := []

theorem ofCluster_reconciles_gauge :
    (∀ b ∈ gauge.blocks, b.Sound) ∧ Uniform (gauge.blocks.map Block.columns) ∧
      ∃ p, ofCluster gauge = .ok p ∧ p.Reconciles gauge ∧ p.instants = [0, 10, 20, 25] ∧
        p.column? "level" = some ⟨.int, [.int 1, .int 7, .int 3, .null]⟩ ∧
        p.column? "flow" = some ⟨.bool, [.null, .bool true, .null, .null]⟩ := by
  have hb : ∀ b ∈ gauge.blocks, b.Sound := by decide
  have hu : Uniform (gauge.blocks.map Block.columns) := by decide
  obtain ⟨hok, -⟩ := ofCluster_reconciles gauge hb
  obtain ⟨p, hp, hreconciles⟩ := hok hu
  have hread : (ofCluster gauge).map (fun p =>
      (p.instants, p.column? "level", p.column? "flow")) =
        .ok ([0, 10, 20, 25], some ⟨.int, [.int 1, .int 7, .int 3, .null]⟩,
          some ⟨.bool, [.null, .bool true, .null, .null]⟩) := by
    cbv
  rw [hp] at hread
  simp only [Except.map, Except.ok.injEq, Prod.mk.injEq] at hread
  exact ⟨hb, hu, p, hp, hreconciles, hread⟩

end Page

end SeriesTable
