import Paraxiom.ForStd.OrderStatistic

/-!
# Quorum medians over a log of feeds

Creators publish lists of keyed values, each list at a moment. A log holds the feeds,
newest first. What a creator says about a key is the last entry of the key in its most
recent feed that has one; `votes` are the values that are live at a moment, one for each
creator, and `decisive` is the most recent feed with the key that met a quorum.

`Published` is what a reader of the log should see of a key. One feed more either decides
the key (`Published.cons_of_decides`) or changes nothing (`Published.cons_of_not`).
-/

namespace QuorumLog

open OrderStatistic

/-- A list of entries that a creator published at a moment. -/
structure Feed (C K X T : Type) where
  creator : C
  moment : T
  entries : List (K × X)

section Definitions

variable {C K X T : Type}

/-- The keys of a feed's entries. -/
def Feed.keys (f : Feed C K X T) : List K := f.entries.map Prod.fst

/-- The last entry of a key. -/
def lastEntry [DecidableEq K] (entries : List (K × X)) (k : K) : Option X :=
  entries.reverse.lookup k

variable [DecidableEq C]

/-- The distinct creators of a log. -/
def creators (log : List (Feed C K X T)) : List C := (log.map Feed.creator).dedup

variable [DecidableEq K]

/-- What a creator said last about a key. -/
def latest : List (Feed C K X T) → C → K → Option X
  | [], _, _ => none
  | f :: older, c, k =>
    if f.creator = c then (lastEntry f.entries k).or (latest older c k) else latest older c k

/-- The live values of a key, one for each creator whose latest value is live. -/
def votes (live : X → Bool) (log : List (Feed C K X T)) (k : K) : List X :=
  (creators log).filterMap fun c => (latest log c k).filter live

/-- The feed has the key and, with it, a quorum of creators has a live value. -/
def Decides (live : T → X → Bool) (quorum : Nat) (f : Feed C K X T)
    (older : List (Feed C K X T)) (k : K) : Prop :=
  k ∈ f.keys ∧ quorum ≤ (votes (live f.moment) (f :: older) k).length

instance (live : T → X → Bool) (quorum : Nat) (f : Feed C K X T) (older : List (Feed C K X T))
    (k : K) : Decidable (Decides live quorum f older k) :=
  inferInstanceAs (Decidable (_ ∧ _))

/-- The most recent feed that decides the key, and the feeds before it. -/
def decisive (live : T → X → Bool) (quorum : Nat) :
    List (Feed C K X T) → K → Option (Feed C K X T × List (Feed C K X T))
  | [], _ => none
  | f :: older, k =>
    if Decides live quorum f older k then some (f, older) else decisive live quorum older k

variable {V : Type} [LinearOrder V]

/-- A value of `xs` whose key is the one in the middle of their keys in increasing order. -/
def IsMedian (value : X → V) (xs : List X) (x : X) : Prop :=
  x ∈ xs ∧ nthSmallest (xs.map value) (xs.length / 2) = some (value x)

/-- What is published of a key: a median of the votes that the most recent decisive feed
    met, and nothing where there was none. -/
def Published (live : T → X → Bool) (quorum : Nat) (value : X → V) (log : List (Feed C K X T))
    (k : K) (published : Option X) : Prop :=
  match decisive live quorum log k with
  | none => published = none
  | some (f, older) =>
    ∃ x, published = some x ∧ IsMedian value (votes (live f.moment) (f :: older) k) x

end Definitions

/-- Medians do not depend on the order of the votes. -/
theorem IsMedian.perm {X V : Type} [LinearOrder V] {value : X → V} {xs ys : List X} {x : X}
    (h : IsMedian value xs x) (hperm : xs.Perm ys) : IsMedian value ys x :=
  ⟨hperm.mem_iff.mp h.1, by
    rw [← nthSmallest_perm (hperm.map value), ← hperm.length_eq]; exact h.2⟩

variable {C K X T : Type}

/-! ## Creators -/

section Creators

variable [DecidableEq C]

theorem mem_creators {log : List (Feed C K X T)} {c : C} :
    c ∈ creators log ↔ ∃ f ∈ log, f.creator = c := by
  rw [creators, List.mem_dedup, List.mem_map]

theorem nodup_creators (log : List (Feed C K X T)) : (creators log).Nodup := List.nodup_dedup _

theorem length_creators_le_cons (f : Feed C K X T) (older : List (Feed C K X T)) :
    (creators older).length ≤ (creators (f :: older)).length := by
  refine ((nodup_creators older).subperm fun c hc => ?_).length_le
  obtain ⟨g, hg, hc⟩ := mem_creators.mp hc
  exact mem_creators.mpr ⟨g, List.mem_cons_of_mem _ hg, hc⟩

end Creators

variable [DecidableEq K]

/-! ## Last entries -/

@[simp] theorem lastEntry_nil (k : K) : lastEntry ([] : List (K × X)) k = none := rfl

/-- One more entry of a key is its last. -/
theorem lastEntry_concat_self (entries : List (K × X)) (k : K) (x : X) :
    lastEntry (entries ++ [(k, x)]) k = some x := by
  simp [lastEntry]

theorem lastEntry_concat_of_ne (entries : List (K × X)) {k key : K} (h : k ≠ key) (x : X) :
    lastEntry (entries ++ [(key, x)]) k = lastEntry entries k := by
  simp [lastEntry, List.lookup_cons, show (k == key) = false from beq_eq_false_iff_ne.mpr h]

/-- A list has a last entry of the keys it has. -/
theorem lastEntry_isSome (entries : List (K × X)) (k : K) :
    (lastEntry entries k).isSome ↔ k ∈ entries.map Prod.fst := by
  induction entries using List.reverseRecOn with
  | nil => simp
  | append_singleton entries e ih =>
    obtain ⟨key, x⟩ := e
    rw [List.map_append, List.mem_append]
    by_cases hk : k = key
    · -- the entry appended is one of the key
      subst hk
      simp [lastEntry_concat_self]
    · simp [lastEntry_concat_of_ne _ hk, ih, hk]

theorem lastEntry_eq_none (entries : List (K × X)) (k : K) :
    lastEntry entries k = none ↔ k ∉ entries.map Prod.fst := by
  rw [← lastEntry_isSome, Option.not_isSome_iff_eq_none]

/-! ## Latest values -/

variable [DecidableEq C]

/-- A creator's latest value stands in one of its feeds. -/
theorem latest_eq_some {log : List (Feed C K X T)} {c : C} {k : K} {x : X}
    (h : latest log c k = some x) :
    ∃ f ∈ log, f.creator = c ∧ lastEntry f.entries k = some x := by
  induction log with
  | nil => exact nomatch h
  | cons f older ih =>
    unfold latest at h
    split at h
    · rename_i hc
      -- the newest feed of the creator, unless it has no entry of the key
      rcases Option.or_eq_some_iff.mp h with hx | ⟨_, hx⟩
      · exact ⟨f, List.mem_cons_self, hc, hx⟩
      · obtain ⟨g, hg, h⟩ := ih hx
        exact ⟨g, List.mem_cons_of_mem _ hg, h⟩
    · obtain ⟨g, hg, h⟩ := ih h
      exact ⟨g, List.mem_cons_of_mem _ hg, h⟩

/-! ## Publishing -/

section Publishing

variable {live : T → X → Bool} {quorum : Nat} {V : Type} [LinearOrder V] {value : X → V}
  {f : Feed C K X T} {older : List (Feed C K X T)} {k : K}

theorem published_nil : Published live quorum value ([] : List (Feed C K X T)) k none := rfl

/-- A feed that decides a key publishes a median of the votes it meets. -/
theorem Published.cons_of_decides (h : Decides live quorum f older k) {published : Option X}
    (hmedian : ∃ x, published = some x ∧
      IsMedian value (votes (live f.moment) (f :: older) k) x) :
    Published live quorum value (f :: older) k published := by
  rw [Published, decisive, if_pos h]
  exact hmedian

/-- Any other feed leaves what was published. -/
theorem Published.cons_of_not (h : ¬Decides live quorum f older k) {published : Option X}
    (hpublished : Published live quorum value older k published) :
    Published live quorum value (f :: older) k published := by
  rw [Published, decisive, if_neg h]
  exact hpublished

end Publishing

end QuorumLog
