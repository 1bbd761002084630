import SeriesTable.Page.Layout
import SeriesTable.Proofs.Book.Pages
import SeriesTable.Proofs.Lists
import SeriesTable.Proofs.Text.ByteOrder

/-
  Layouts of pages. A layout made of instants and columns is that of a page (`Page.layout`), and
  putting a column of missing values into its lists and its index is padding the page
  (`insertNull_layout`): halving finds the place that the order of the names asks for, so the two
  lists shift alike and the index made anew fits them. So every layout that comes about (`Built`)
  is the layout of a page, and is `Sound`: nothing in its lists and its index disagrees.

  Main statement: `built_sound`.
-/

namespace SeriesTable

namespace Layout

variable {l : Layout} {names : List String} {name : String} {kind : Kind}

/-! ## Places -/

/-- The names are in strictly increasing order. -/
def InOrder (names : List String) : Prop := names.Pairwise fun a b => compare a b = .lt

theorem InOrder.nodup (h : InOrder names) : names.Nodup := h.imp fun hlt heq => by simp [heq] at hlt

theorem InOrder.lt_of_lt (h : InOrder names) {i j : Nat} (hi : i < names.length)
    (hj : j < names.length) (hij : i < j) : compare names[i] names[j] = .lt :=
  List.pairwise_iff_getElem.mp h i j hi hj hij

theorem find?_places (h : names.Nodup) {i : Nat} :
    (places names).find? name = some i ↔ names[i]? = some name := by
  have hkeys : (names.zipIdx.map (·.1)).Nodup := by rwa [List.zipIdx_map_fst]
  rw [places, SortedMap.find?_ofList hkeys]
  exact List.mem_zipIdx_iff_getElem?

theorem size_places (h : names.Nodup) : (places names).size = names.length := by
  have hkeys : (names.zipIdx.map (·.1)).Nodup := by rwa [List.zipIdx_map_fst]
  rw [places, SortedMap.size_ofList hkeys, List.length_zipIdx]

/-- Halving keeps lesser names below `low` and no lesser one from `high` on. -/
theorem placeIn_spec (h : InOrder names) {low high : Nat} (hle : low ≤ high)
    (hhigh : high ≤ names.length)
    (hbefore : ∀ (i : Nat) (hi : i < names.length), i < low → compare names[i] name = .lt)
    (hafter : ∀ (i : Nat) (hi : i < names.length), high ≤ i → compare names[i] name ≠ .lt) :
    placeIn names name low high ≤ names.length ∧
    (∀ (i : Nat) (hi : i < names.length), i < placeIn names name low high →
      compare names[i] name = .lt) ∧
    ∀ (i : Nat) (hi : i < names.length), placeIn names name low high ≤ i →
      compare names[i] name ≠ .lt := by
  fun_induction placeIn names name low high with
  | case1 low high hlt middle hless ih =>
    have hmiddle : middle < names.length := by omega
    rw [List.getElem?_eq_getElem hmiddle, Option.any_some, decide_eq_true_eq] at hless
    refine ih (by omega) hhigh (fun i hi hil => ?_) hafter
    rcases Nat.lt_or_eq_of_le (Nat.le_of_lt_succ hil) with him | rfl
    · exact Std.TransCmp.lt_trans (h.lt_of_lt hi hmiddle him) hless
    · exact hless
  | case2 low high hlt middle hless ih =>
    have hmiddle : middle < names.length := by omega
    rw [List.getElem?_eq_getElem hmiddle, Option.any_some, decide_eq_true_eq] at hless
    refine ih (by omega) (by omega) hbefore fun i hi hmi hil => ?_
    rcases Nat.lt_or_eq_of_le hmi with him | rfl
    · exact hless (Std.TransCmp.lt_trans (h.lt_of_lt hmiddle hi him) hil)
    · exact hless hil
  | case3 low high hlt =>
    obtain rfl : low = high := by omega
    exact ⟨hhigh, hbefore, hafter⟩

/-- For a name that is not there the place is between the lesser names and the greater ones. -/
theorem place_between (h : InOrder l.names) (hname : name ∉ l.names) :
    l.place name ≤ l.names.length ∧
    (∀ n ∈ l.names.take (l.place name), compare n name = .lt) ∧
    ∀ n ∈ l.names.drop (l.place name), compare name n = .lt := by
  obtain ⟨hle, hbefore, hafter⟩ := @placeIn_spec l.names name h 0 l.names.length
    (Nat.zero_le _) (Nat.le_refl _) (fun _ _ hi => absurd hi (Nat.not_lt_zero _))
    fun _ hi hle => absurd hi (Nat.not_lt.mpr hle)
  refine ⟨hle, fun n hn => ?_, fun n hn => ?_⟩
  · obtain ⟨j, hj, rfl⟩ := List.mem_iff_getElem.mp hn
    rw [List.getElem_take]
    rw [List.length_take, Nat.lt_min] at hj
    exact hbefore j hj.2 hj.1
  · obtain ⟨j, hj, rfl⟩ := List.mem_iff_getElem.mp hn
    rw [List.length_drop] at hj
    have hlength : l.place name + j < l.names.length := by omega
    rw [List.getElem_drop]
    have hne : l.names[l.place name + j] ≠ name :=
      fun heq => hname (heq ▸ List.getElem_mem hlength)
    have hnot := hafter (l.place name + j) hlength (Nat.le_add_right ..)
    cases hcompare : compare l.names[l.place name + j] name with
    | lt => exact absurd hcompare hnot
    | eq => exact absurd (Std.LawfulEqOrd.eq_of_compare hcompare) hne
    | gt => exact Std.OrientedCmp.lt_of_gt hcompare

end Layout

/-! ## The layout of a page -/

namespace Page

variable {p : Page} {name : String} {kind : Kind}

/-- The lists and the index of a page. -/
def layout (p : Page) : Layout :=
  ⟨p.instants, p.columns.keys, p.columns.values, Layout.places p.columns.keys⟩

end Page

namespace Layout

open Page (layout)

variable {p : Page} {name : String} {kind : Kind}

theorem find?_index_layout {i : Nat} :
    p.layout.index.find? name = some i ↔ p.layout.names[i]? = some name :=
  find?_places p.columns.nodup_keys

theorem column?_layout (p : Page) (name : String) : p.layout.column? name = p.column? name := by
  unfold column? Page.column?
  cases hi : p.layout.index.find? name with
  | none =>
    cases hc : p.columns.find? name with
    | none => rfl
    | some c =>
      obtain ⟨i, hname⟩ := List.getElem?_of_mem (SortedMap.mem_keys_iff.mpr ⟨c, hc⟩)
      have hfound := find?_index_layout.mpr hname
      rw [hi] at hfound
      cases hfound
  | some i =>
    obtain ⟨hkeys, hname⟩ := List.getElem?_eq_some_iff.mp (find?_index_layout.mp hi)
    have hvalues : i < p.columns.values.length := by
      rw [SortedMap.length_values, ← SortedMap.length_keys]
      exact hkeys
    have hfound := p.columns.find?_getElem_keys hkeys hvalues
    have hcolumn : p.layout.columns[i]? = some p.columns.values[i] :=
      List.getElem?_eq_getElem hvalues
    have hname : p.columns.keys[i] = name := hname
    rw [hname] at hfound
    exact hcolumn.trans hfound.symm

theorem hasColumn_eq_true_iff : p.layout.hasColumn name = true ↔ name ∈ p.layout.names := by
  rw [hasColumn, SortedMap.contains_eq_true_iff, List.mem_iff_getElem?]
  exact exists_congr fun i => find?_index_layout

theorem mem_names_layout_iff : name ∈ p.layout.names ↔ p.hasColumn name = true := by
  rw [Page.hasColumn, SortedMap.contains_eq_true_iff]
  exact SortedMap.mem_keys_iff

theorem beside_layout (p : Page) : p.layout.names.length = p.layout.columns.length :=
  p.columns.length_keys.trans p.columns.length_values.symm

/-- For lists and an index that agree, only the numbers of values are left to be looked at. -/
theorem verify_places {instants : List Int} {columns : SortedMap String Column} :
    verify ⟨instants, columns.keys, columns.values, places columns.keys⟩ =
      match columns.entries.find? fun e => e.2.length ≠ instants.length with
      | some (name, c) =>
        .error (.columnLength name (instants.headD 0) instants.length c.length)
      | none => .ok () := by
  have hindex : (places columns.keys).size = columns.keys.length :=
    size_places columns.nodup_keys
  have hlists : columns.keys.length = columns.values.length :=
    columns.length_keys.trans columns.length_values.symm
  have hzip : columns.keys.zip columns.values = columns.entries :=
    (List.zip_of_prod rfl rfl).symm
  rw [verify, if_neg (by simp [hindex, hlists])]
  simp only [hzip]
  rfl

theorem verify_layout (p : Page) : p.layout.verify = .ok () := by
  have hnone : (p.columns.entries.find? fun e => e.2.length ≠ p.instants.length) = none := by
    simpa using p.lengths
  rw [Page.layout, verify_places, hnone]

/-- The same instants and columns are refused, and for the same reason. -/
theorem make_eq (instants : List Int) (columns : SortedMap String Column) :
    make instants columns = (Page.make instants columns).map layout := by
  unfold make Page.make
  by_cases hn : instants = []
  · rw [if_pos hn, dif_pos hn]
    rfl
  · rw [if_neg hn, dif_neg hn]
    split
    · rename_i a b hd
      split
      · rename_i a' b' hd'
        rw [hd] at hd'
        cases hd'
        rfl
      · rename_i hd'
        rw [hd] at hd'
        cases hd'
    · rename_i hd
      split
      · rename_i a' b' hd'
        rw [hd] at hd'
        cases hd'
      · split
        all_goals
          rename_i hl
          have hverify := @verify_places instants columns
          rw [hl] at hverify
          dsimp only
          rw [hverify]
          rfl

theorem ofBlock_eq (b : Block) : ofBlock b = (Page.ofBlock b).map layout := make_eq ..

theorem ofCluster_eq (c : Cluster) : ofCluster c = (Page.ofCluster c).map layout := by
  unfold ofCluster Page.ofCluster
  simp only [make_eq]
  cases c.blocks.foldlM (Page.mergeBlock (Page.unifiedInstants c.blocks)) ∅ <;> rfl

/-! ## Columns of missing values -/

theorem insertNull_of_mem (h : name ∈ p.layout.names) :
    p.layout.insertNull name kind = (false, p.layout) := by
  rw [insertNull, if_pos (hasColumn_eq_true_iff.mpr h)]

/-- Padding puts the new entry where halving puts it. -/
theorem entries_pad (h : name ∉ p.layout.names) (kind : Kind) :
    (p.pad name kind).columns.entries = p.columns.entries.take (p.layout.place name) ++
      (name, Column.nulls kind p.rowCount) :: p.columns.entries.drop (p.layout.place name) := by
  have hin : InOrder p.layout.names := p.columns.sorted_keys
  obtain ⟨-, hbefore, hafter⟩ := place_between hin h
  have habsent : ¬ p.hasColumn name = true := fun hp => h (mem_names_layout_iff.mpr hp)
  have hmem {es : List (String × Column)} {e : String × Column} (he : e ∈ es) :
      e.1 ∈ es.map (·.1) := List.mem_map.mpr ⟨e, he, rfl⟩
  rw [Page.pad, if_neg habsent]
  show SortedMap.insertIn name _ p.columns.entries = _
  conv_lhs => rw [← List.take_append_drop (p.layout.place name) p.columns.entries]
  refine SortedMap.insertIn_append (fun e he => hbefore _ ?_) fun e he => hafter _ ?_
  · have hkey := hmem he
    rwa [List.map_take] at hkey
  · have hkey := hmem he
    rwa [List.map_drop] at hkey

theorem instants_layout_pad (p : Page) (name : String) (kind : Kind) :
    (p.pad name kind).layout.instants = p.layout.instants :=
  Page.instants_pad ..

theorem names_layout_pad (h : name ∉ p.layout.names) (kind : Kind) :
    (p.pad name kind).layout.names = p.layout.names.take (p.layout.place name) ++
      name :: p.layout.names.drop (p.layout.place name) := by
  show (p.pad name kind).columns.entries.map (·.1) = _
  rw [entries_pad h, List.map_append, List.map_cons, List.map_take, List.map_drop]
  rfl

theorem columns_layout_pad (h : name ∉ p.layout.names) (kind : Kind) :
    (p.pad name kind).layout.columns = p.layout.columns.take (p.layout.place name) ++
      Column.nulls kind p.rowCount :: p.layout.columns.drop (p.layout.place name) := by
  show (p.pad name kind).columns.entries.map (·.2) = _
  rw [entries_pad h, List.map_append, List.map_cons, List.map_take, List.map_drop]
  rfl

theorem insertNull_of_not_mem (h : name ∉ p.layout.names) (kind : Kind) :
    p.layout.insertNull name kind = (true, (p.pad name kind).layout) := by
  have hin : InOrder p.layout.names := p.columns.sorted_keys
  obtain ⟨hle, -, -⟩ := place_between hin h
  have hnames := names_layout_pad h kind
  have hcolumns := columns_layout_pad h kind
  rw [← insertIdx_eq_append hle] at hnames
  rw [← insertIdx_eq_append (beside_layout p ▸ hle)] at hcolumns
  rw [insertNull, if_neg (fun hp => h (hasColumn_eq_true_iff.mp hp))]
  refine Prod.ext rfl ?_
  show Layout.mk _ _ _ _ = Layout.mk _ (p.pad name kind).layout.names
    (p.pad name kind).layout.columns (places (p.pad name kind).layout.names)
  rw [hnames, hcolumns]
  exact congrArg (Layout.mk · _ _ _) (instants_layout_pad p name kind).symm

/-- A column of missing values in the layout is one on the page. -/
theorem insertNull_layout (p : Page) (name : String) (kind : Kind) :
    (p.layout.insertNull name kind).2 = (p.pad name kind).layout := by
  by_cases h : name ∈ p.layout.names
  · rw [insertNull_of_mem h, Page.pad, if_pos (mem_names_layout_iff.mp h)]
  · rw [insertNull_of_not_mem h]

theorem insertNulls_layout (p : Page) (es : List (String × Kind)) :
    p.layout.insertNulls es = (es.foldl (fun p e => p.pad e.1 e.2) p).layout := by
  induction es generalizing p with
  | nil => rfl
  | cons e es ih =>
    rw [List.foldl_cons, ← ih, ← insertNull_layout]
    rfl

/-! ## Layouts that come about -/

/-- Nothing in the lists and the index disagrees. -/
structure Sound (l : Layout) : Prop where
  nonempty : l.instants ≠ []
  increasing : Instant.Increasing l.instants
  inOrder : l.names.Pairwise fun a b => Text.bytes a < Text.bytes b
  beside : l.names.length = l.columns.length
  index : ∀ name i, l.index.find? name = some i ↔ l.names[i]? = some name
  lengths : ∀ c ∈ l.columns, c.length = l.rowCount
  verified : l.verify = .ok ()

/-- The layout has one more column, in the place that its name asks for. -/
structure Gains (l : Layout) (name : String) (c : Column) (l' : Layout) : Prop where
  instants : l'.instants = l.instants
  lists : ∃ before after left right, l.names = before ++ after ∧ l.columns = left ++ right ∧
    before.length = left.length ∧ (∀ n ∈ before, Text.bytes n < Text.bytes name) ∧
    (∀ n ∈ after, Text.bytes name < Text.bytes n) ∧
    l'.names = before ++ name :: after ∧ l'.columns = left ++ c :: right
  found : l'.column? name = some c
  kept : ∀ other ≠ name, l'.column? other = l.column? other

theorem sound_layout (p : Page) : p.layout.Sound where
  nonempty := p.nonempty
  increasing := p.increasing
  inOrder := p.columns.sorted_keys.imp Text.compare_eq_lt_iff.mp
  beside := beside_layout p
  index _ _ := find?_index_layout
  lengths c hc := by
    obtain ⟨e, he, rfl⟩ := List.mem_map.mp hc
    exact p.lengths e he
  verified := verify_layout p

theorem gains_layout (h : name ∉ p.layout.names) (kind : Kind) :
    p.layout.Gains name (Column.nulls kind p.layout.rowCount) (p.pad name kind).layout := by
  have hin : InOrder p.layout.names := p.columns.sorted_keys
  obtain ⟨-, hbefore, hafter⟩ := place_between hin h
  have habsent : p.column? name = none :=
    SortedMap.contains_eq_false_iff.mp
      (Bool.not_eq_true _ ▸ fun hp => h (mem_names_layout_iff.mpr hp))
  refine ⟨instants_layout_pad .., ⟨_, _, _, _, (List.take_append_drop _ _).symm,
    (List.take_append_drop _ _).symm, ?_, fun n hn => Text.compare_eq_lt_iff.mp (hbefore n hn),
    fun n hn => Text.compare_eq_lt_iff.mp (hafter n hn), names_layout_pad h kind,
    columns_layout_pad h kind⟩, ?_, ?_⟩
  · rw [List.length_take, List.length_take, beside_layout]
  · rw [column?_layout, Page.column?_pad, habsent, if_pos rfl]
    rfl
  · intro other hne
    rw [column?_layout, column?_layout, Page.column?_pad, if_neg hne, Option.or_none]

/-- How a layout comes about: from instants and columns, from a block or from a cluster of blocks,
and then by columns of missing values. -/
inductive Built : Layout → Prop where
  | made {instants : List Int} {columns : SortedMap String Column} {l : Layout}
      (h : make instants columns = .ok l) : Built l
  | block {b : Block} {l : Layout} (h : ofBlock b = .ok l) : Built l
  | cluster {c : Cluster} {l : Layout} (h : ofCluster c = .ok l) : Built l
  | inserted {l : Layout} (h : Built l) (name : String) (kind : Kind) :
      Built (l.insertNull name kind).2

theorem Built.exists_page {l : Layout} (h : Built l) : ∃ p : Page, p.layout = l := by
  have hmap {x : Except Fault Page} {l : Layout} (h : x.map layout = .ok l) :
      ∃ p : Page, p.layout = l := by
    cases x with
    | error fault => cases h
    | ok p => exact ⟨p, Except.ok.inj h⟩
  induction h with
  | made h => exact hmap ((make_eq ..).symm.trans h)
  | block h => exact hmap ((ofBlock_eq _).symm.trans h)
  | cluster h => exact hmap ((ofCluster_eq _).symm.trans h)
  | inserted _ name kind ih =>
    obtain ⟨p, rfl⟩ := ih
    exact ⟨p.pad name kind, (insertNull_layout ..).symm⟩

/-- Sources with one kind each are padded in any order. -/
theorem foldl_pad_perm {es ds : List (String × Kind)} (hperm : es.Perm ds)
    (hkeys : (es.map (·.1)).Nodup) (p : Page) :
    es.foldl (fun p e => p.pad e.1 e.2) p = ds.foldl (fun p e => p.pad e.1 e.2) p := by
  refine Page.ext' ?_ (SortedMap.ext_find? fun source => ?_)
  · rw [Book.instants_foldl_pad, Book.instants_foldl_pad]
  · have hes := Book.column?_foldl_pad es p source
    have hds := Book.column?_foldl_pad ds p source
    rw [SortedMap.findIn_perm hperm hkeys] at hes
    exact hes.trans hds.symm

/-- However a layout has come about, its lists and its index agree. A column of missing values for a
source that it has changes nothing; for one that it has not, the layout has one more column. Of
several such columns for different sources the order does not count. -/
theorem built_sound {l : Layout} (h : Built l) :
    l.Sound ∧
    (∀ name kind, name ∈ l.names → l.insertNull name kind = (false, l)) ∧
    (∀ name kind, name ∉ l.names → ∃ l', l.insertNull name kind = (true, l') ∧ Built l' ∧
      l.Gains name (Column.nulls kind l.rowCount) l') ∧
    ∀ es ds : List (String × Kind), es.Perm ds → (es.map (·.1)).Nodup →
      l.insertNulls es = l.insertNulls ds := by
  obtain ⟨p, rfl⟩ := h.exists_page
  refine ⟨sound_layout p, fun name kind => insertNull_of_mem, fun name kind hname => ?_,
    fun es ds hperm hkeys => ?_⟩
  · have hinsert := insertNull_of_not_mem hname kind
    have hbuilt := h.inserted name kind
    rw [hinsert] at hbuilt
    exact ⟨_, hinsert, hbuilt, gains_layout hname kind⟩
  · rw [insertNulls_layout, insertNulls_layout, foldl_pad_perm hperm hkeys]

/-- Columns of a layout with room for another between them. -/
def flanks : SortedMap String Column :=
  SortedMap.ofList [("flow", ⟨.bool, [.null, .bool true]⟩), ("load", ⟨.int, [.int 5, .null]⟩)]

theorem built_sound_between :
    ∃ l l', make [1, 2] flanks = .ok l ∧ l.Sound ∧ l.insertNull "flow" .int = (false, l) ∧
      l.insertNull "level" .float = (true, l') ∧ l'.names = ["flow", "level", "load"] ∧
      l.Gains "level" (Column.nulls .float 2) l' ∧
      l.insertNulls [("level", .float), ("zone", .int)] =
        l.insertNulls [("zone", .int), ("level", .float)] := by
  obtain ⟨l, hmake, hread⟩ : ∃ l, make [1, 2] flanks = .ok l ∧
      (l.rowCount, l.names, (l.insertNull "level" .float).2.names) =
        (2, ["flow", "load"], ["flow", "level", "load"]) := ⟨_, rfl, by decide +kernel⟩
  simp only [Prod.mk.injEq] at hread
  obtain ⟨hrows, hnames, hlevel⟩ := hread
  obtain ⟨hsound, hmem, hnew, hperm⟩ := built_sound (.made hmake)
  obtain ⟨l', hinsert, -, hgains⟩ := hnew "level" .float (by simp [hnames])
  rw [hinsert] at hlevel
  rw [hrows] at hgains
  exact ⟨l, l', hmake, hsound, hmem _ _ (by simp [hnames]), hinsert, hlevel, hgains,
    hperm _ _ (.swap ..) (by decide)⟩

end Layout

end SeriesTable
