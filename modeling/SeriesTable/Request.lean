import SeriesTable.Fault

/-
  Requests: the sources that are asked for and a time range, which has its start but not its
  end. `Request.make` accepts exactly the valid ones; a request that was read from a document is
  taken as it is.
-/

namespace SeriesTable

/-- Sources over the instants from `start` to before `stop`. -/
structure Request where
  sources : List String
  start : Int
  stop : Int
  deriving DecidableEq, Repr

namespace Request

/-- The request asks for something, and for nothing twice. -/
def Valid (r : Request) : Prop :=
  r.sources ≠ [] ∧ r.start < r.stop ∧ "" ∉ r.sources ∧ r.sources.Nodup

instance (r : Request) : Decidable r.Valid := inferInstanceAs (Decidable (_ ∧ _ ∧ _ ∧ _))

/-- The first source that has no name or stands after another one of its name. -/
def sourceFlaw? (seen : List String) : List String → Option RequestFlaw
  | [] => none
  | s :: rest =>
    if s = "" then some .noName
    else if s ∈ seen then some (.repeatedSource s)
    else sourceFlaw? (s :: seen) rest

/-- The first thing that keeps a request from being valid. -/
def flaw? (r : Request) : Option RequestFlaw :=
  if r.sources = [] then some .noSources
  else if r.stop ≤ r.start then some (.emptyRange r.start r.stop)
  else sourceFlaw? [] r.sources

theorem sourceFlaw?_eq_none_iff {seen sources : List String} :
    sourceFlaw? seen sources = none ↔
      "" ∉ sources ∧ sources.Nodup ∧ ∀ s ∈ sources, s ∉ seen := by
  induction sources generalizing seen with
  | nil => simp [sourceFlaw?]
  | cons s rest ih =>
    unfold sourceFlaw?
    by_cases he : s = ""
    · simp [he]
    by_cases hs : s ∈ seen
    · simp [he, hs]
    simp only [he, hs, if_false, ih, List.mem_cons, List.nodup_cons, not_or]
    grind

theorem flaw?_eq_none_iff {r : Request} : r.flaw? = none ↔ r.Valid := by
  unfold flaw? Valid
  by_cases hn : r.sources = []
  · simp [hn]
  by_cases ht : r.stop ≤ r.start
  · have : ¬ r.start < r.stop := Int.not_lt.mpr ht
    simp [hn, ht, this]
  have : r.start < r.stop := Int.not_le.mp ht
  simp [hn, ht, this, sourceFlaw?_eq_none_iff]

/-- A valid request, or what is wrong with it. -/
def make (sources : List String) (start stop : Int) : Except Fault Request :=
  let r : Request := ⟨sources, start, stop⟩
  match r.flaw? with
  | some flaw => .error (.invalidRequest flaw)
  | none => .ok r

/-- Nanoseconds from start to stop. -/
def duration (r : Request) : Int := r.stop - r.start

/-- The instant is in the time range. -/
def Covers (r : Request) (t : Int) : Prop := r.start ≤ t ∧ t < r.stop

instance (r : Request) (t : Int) : Decidable (r.Covers t) := inferInstanceAs (Decidable (_ ∧ _))

/-- How messages name a request. -/
def text (r : Request) : String :=
  toString r.sources.length ++ " sources over [" ++ Instant.text r.start ++ ", "
    ++ Instant.text r.stop ++ ")"

end Request

end SeriesTable
