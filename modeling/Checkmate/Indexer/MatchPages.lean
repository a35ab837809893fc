import Mathlib.Data.List.Dedup
import Mathlib.Data.List.DropRight
import Mathlib.Data.List.Sort

/-!
# Pages of `GET /matches`

`getMatches` sorts what the database returns by id, filters it with the cursors and cuts it at the
limit. Following `after` from page to page lists every match once, and a match that comes in
meanwhile with a larger id is neither skipped nor does it move another one. With `before` the cut
keeps the smallest ids below the cursor instead of the largest, so that a walk is exact only if
all matches fit on one page (`walks_exact_iff`, `backward_walk_skips`).

The response cache is off and the database answers.
-/

namespace Checkmate.Indexer

open List

inductive MatchStatus where
  | pending | active | completed | cancelled | expired
deriving DecidableEq, Repr

/-- The events, each with its match and status, and the rows of `matches`. -/
structure Tables (α : Type) where
  events : List (ℕ × Option MatchStatus)
  row : ℕ → Option α

structure MatchInfo (α : Type) where
  matchId : ℕ
  details : α
deriving DecidableEq, Repr

structure MatchQuery where
  status : Option MatchStatus := none
  offset : Option ℤ := none
  limit : Option ℤ := none
  after : Option ℕ := none
  before : Option ℕ := none

namespace Tables

variable {α : Type}

def buildMatchInfo (db : Tables α) (matchId : ℕ) : Option (MatchInfo α) :=
  (db.row matchId).map (⟨matchId, ·⟩)

def getMatchesByStatus (db : Tables α) (status : Option MatchStatus) : List (MatchInfo α) :=
  let matchIds : List ℕ := match status with
    | some s => (db.events.filter fun e => e.2 = some s).map Prod.fst
    | none => db.events.map Prod.fst
  matchIds.dedup.filterMap db.buildMatchInfo

/-- The order of `SELECT DISTINCT` does not matter : the ids are sorted. -/
def sorted (db : Tables α) (status : Option MatchStatus) : List (MatchInfo α) :=
  (db.getMatchesByStatus status).insertionSort (·.matchId ≤ ·.matchId)

def getMatches (db : Tables α) (query : MatchQuery) : List (MatchInfo α) :=
  let infos := db.sorted query.status
  let limit := (query.limit.filter (0 < ·)).map Int.toNat
  if query.after.isSome || query.before.isSome then
    let iter := query.after.elim infos fun after => infos.filter (after < ·.matchId)
    let iter := query.before.elim iter fun before => iter.filter (·.matchId < before)
    limit.elim iter iter.take
  else
    let offset := ((query.offset.filter (0 ≤ ·)).map Int.toNat).getD 0
    limit.elim (infos.drop offset) (infos.drop offset).take

variable {db : Tables α} {dbs : ℕ → Tables α} {status : Option MatchStatus} {n : ℕ}
  {l l' : List (MatchInfo α)} {m : MatchInfo α}

/-! ## One page -/

theorem sorted_perm : (db.sorted status).Perm (db.getMatchesByStatus status) :=
  perm_insertionSort ..

theorem sorted_lt (db : Tables α) (status : Option MatchStatus) :
    (db.sorted status).Pairwise (·.matchId < ·.matchId) := by
  have hne : (db.getMatchesByStatus status).Pairwise (·.matchId ≠ ·.matchId) := by
    refine pairwise_filterMap.mpr ((nodup_dedup _).imp fun hid m hm m' hm' => ?_)
    simp only [buildMatchInfo, Option.map_eq_some_iff] at hm hm'
    obtain ⟨-, -, rfl⟩ := hm
    obtain ⟨-, -, rfl⟩ := hm'
    exact hid
  have hle : (db.sorted status).Pairwise (·.matchId ≤ ·.matchId) := pairwise_insertionSort ..
  exact (hle.and ((sorted_perm.pairwise_iff Ne.symm).mpr hne)).imp fun h => lt_of_le_of_ne h.1 h.2

/-- After the last match of the first ones come the others. -/
theorem filter_after (h : (l ++ l').Pairwise (·.matchId < ·.matchId)) (hm : l.getLast? = some m) :
    (l ++ l').filter (m.matchId < ·.matchId) = l' := by
  obtain ⟨old, rfl⟩ := List.getLast?_eq_some_iff.mp hm
  obtain ⟨hold, -, hnew⟩ := pairwise_append.mp h
  have hlast (x : MatchInfo α) (hx : x ∈ old) : x.matchId < m.matchId :=
    (pairwise_append.mp hold).2.2 x hx m (by simp)
  have hnil : (old ++ [m]).filter (m.matchId < ·.matchId) = [] := by
    refine filter_eq_nil_iff.mpr fun x hx => ?_
    rcases mem_append.mp hx with hx | hx
    · simpa using (hlast x hx).le
    · simp [mem_singleton.mp hx]
  rw [filter_append, hnil, nil_append, filter_eq_self]
  exact fun x hx => by simpa using hnew m (by simp) x hx

theorem filter_limit (hn : 0 < n) : ((some (n : ℤ)).filter (0 < ·)).map Int.toNat = some n := by
  simp [hn]

/-- The page after what was read already. -/
theorem getMatches_after (hn : 0 < n) (h : db.sorted status = l ++ l') :
    db.getMatches { status, limit := some n, after := l.getLast?.map (·.matchId) } = l'.take n := by
  cases hlast : l.getLast? with
  | none =>
    obtain rfl := List.getLast?_eq_none_iff.mp hlast
    simp only [getMatches, filter_limit hn, h]
    simp
  | some m =>
    have hfilter := filter_after (h ▸ sorted_lt db status) hlast
    simp only [getMatches, filter_limit hn, h]
    simpa using congrArg (List.take n) hfilter

theorem getMatches_before (hn : 0 < n) (before : ℕ) :
    db.getMatches { status, limit := some n, before := some before } =
      ((db.sorted status).filter (·.matchId < before)).take n := by
  simp only [getMatches, filter_limit hn]
  simp

/-! ## Walks -/

/-- The pages of up to `fuel` requests that follow `after`, until one is empty. Request `k` finds
the tables `dbs k`. -/
def forward (dbs : ℕ → Tables α) (status : Option MatchStatus) (n : ℕ) :
    ℕ → ℕ → Option ℕ → List (List (MatchInfo α))
  | 0, _, _ => []
  | fuel + 1, k, after =>
    let page := (dbs k).getMatches { status, limit := some n, after }
    match page.getLast? with
    | none => []
    | some m => page :: forward dbs status n fuel (k + 1) (some m.matchId)

/-- The pages of up to `fuel` requests that follow `before`, each with its cursor, until one is
empty. -/
def backward (db : Tables α) (status : Option MatchStatus) (n : ℕ) :
    ℕ → ℕ → List (ℕ × List (MatchInfo α))
  | 0, _ => []
  | fuel + 1, before =>
    let page := db.getMatches { status, limit := some n, before := some before }
    match page.head? with
    | none => []
    | some m => (before, page) :: backward db status n fuel m.matchId

/-- Only matches with larger ids have come in : the sorted list has grown at its end. -/
def Gains (status : Option MatchStatus) (db db' : Tables α) : Prop :=
  db.sorted status <+: db'.sorted status

/-- What was read is the beginning of the list, and all of it once a page is empty. No other page
is empty. -/
theorem forward_exact (hn : 0 < n) (hgains : ∀ k, Gains status (dbs k) (dbs (k + 1)))
    (fuel : ℕ) {k : ℕ} (hl : l <+: (dbs k).sorted status) :
    let pages := forward dbs status n fuel k (l.getLast?.map (·.matchId))
    l ++ pages.flatten <+: (dbs (k + pages.length)).sorted status ∧
      (pages.length < fuel → l ++ pages.flatten = (dbs (k + pages.length)).sorted status) ∧
      pages.length ≤ pages.flatten.length := by
  induction fuel generalizing k l with
  | zero => simpa [forward] using hl
  | succ fuel ih =>
    obtain ⟨rest, hrest⟩ := hl
    have hpage := getMatches_after hn hrest.symm
    simp only [forward, hpage]
    cases hlast : (rest.take n).getLast? with
    | none =>
      have hnil : rest = [] := by simpa [hn.ne'] using hlast
      simp [← hrest, hnil]
    | some m =>
      have hnext : l ++ rest.take n <+: (dbs (k + 1)).sorted status := by
        refine List.IsPrefix.trans ⟨rest.drop n, ?_⟩ (hgains k)
        rw [append_assoc, take_append_drop, hrest]
      have hcursor : (l ++ rest.take n).getLast? = some m := by simp [List.getLast?_append, hlast]
      have hpos : 0 < (rest.take n).length := length_pos_of_mem (mem_of_getLast? hlast)
      have hrest := ih hnext
      rw [hcursor, Option.map_some] at hrest
      simp only [flatten_cons, ← append_assoc, length_cons, length_append,
        ← Nat.add_assoc, Nat.add_right_comm k _ 1]
      exact ⟨hrest.1, fun h => hrest.2.1 (Nat.lt_of_succ_lt_succ h), by omega⟩

/-- A backward walk lists every match once, and a page has the `n` largest ids below its cursor. -/
def BackwardExact (db : Tables α) (status : Option MatchStatus) (n before : ℕ) : Prop :=
  let pages := db.backward status n ((db.sorted status).length + 1) before
  (pages.flatMap Prod.snd).Perm (db.sorted status) ∧
    ∀ page ∈ pages, page.2 = ((db.sorted status).filter (·.matchId < page.1)).rtake n

/-- The first page has the first matches, which are the last ones only if there are no others. -/
theorem backwardExact_iff {before : ℕ} (hn : 0 < n)
    (hbefore : ∀ m ∈ db.sorted status, m.matchId < before) :
    db.BackwardExact status n before ↔ (db.sorted status).length ≤ n := by
  have hall : (db.sorted status).filter (·.matchId < before) = db.sorted status := by
    simpa using hbefore
  have hlt := sorted_lt db status
  have hpage := @getMatches_before _ db status n hn
  unfold BackwardExact
  simp only [backward, hpage, hall]
  cases hs : db.sorted status with
  | nil => simp
  | cons m l =>
    rw [hs] at hall hlt hpage
    constructor
    · rintro ⟨-, hpages⟩
      obtain ⟨k, rfl⟩ := Nat.exists_eq_succ_of_ne_zero hn.ne'
      have hfirst := hpages _ mem_cons_self
      rw [hall, List.rtake] at hfirst
      by_contra hlong
      have hdrop : (m :: l).length - k.succ = l.length - k - 1 + 1 := by
        simp only [length_cons] at hlong ⊢
        omega
      rw [hdrop, drop_succ_cons] at hfirst
      have hmem : m ∈ l.drop (l.length - k - 1) := hfirst ▸ mem_cons_self (l := l.take k)
      exact lt_irrefl _ (rel_of_pairwise_cons hlt (mem_of_mem_drop hmem))
    · intro hle
      have hnone : (m :: l).filter (·.matchId < m.matchId) = [] := by
        simp only [filter_eq_nil_iff, decide_eq_true_eq, not_lt, forall_mem_cons]
        exact ⟨le_rfl, fun x hx => (rel_of_pairwise_cons hlt hx).le⟩
      have hend : db.backward status n (l.length + 1) m.matchId = [] := by
        simp [backward, hpage, hnone]
      rw [take_of_length_le hle]
      replace hle : l.length + 1 ≤ n := hle
      simp [hend, hall, List.rtake, Nat.sub_eq_zero_of_le hle]

/-- Forward walks are exact, also while matches with larger ids come in. A backward walk is exact
if and only if all matches fit on a page. -/
theorem walks_exact_iff {before : ℕ} (hn : 0 < n)
    (hbefore : ∀ m ∈ db.sorted status, m.matchId < before) :
    ((db.sorted status).Perm (db.getMatchesByStatus status) ∧
      (db.sorted status).Pairwise (·.matchId < ·.matchId)) ∧
    (forward (fun _ => db) status n ((db.sorted status).length + 1) 0 none).flatten =
      db.sorted status ∧
    (∀ dbs : ℕ → Tables α, (∀ k, Gains status (dbs k) (dbs (k + 1))) → ∀ fuel,
      let pages := forward dbs status n fuel 0 none
      pages.flatten <+: (dbs pages.length).sorted status ∧
        (pages.length < fuel → pages.flatten = (dbs pages.length).sorted status)) ∧
    (db.BackwardExact status n before ↔ (db.sorted status).length ≤ n) := by
  have hforward (dbs : ℕ → Tables α) (hgains : ∀ k, Gains status (dbs k) (dbs (k + 1)))
      (fuel : ℕ) := forward_exact hn hgains fuel ( nil_prefix (l := (dbs 0).sorted status))
  simp only [nil_append, Nat.zero_add] at hforward
  refine ⟨⟨sorted_perm, sorted_lt db status⟩, ?_, fun dbs hgains fuel =>
    (hforward dbs hgains fuel).imp_right And.left, backwardExact_iff hn hbefore⟩
  obtain ⟨hpre, hend, hlength⟩ := hforward (fun _ => db) (fun _ => prefix_rfl)
    ((db.sorted status).length + 1)
  exact hend (Nat.lt_succ_of_le (hlength.trans hpre.length_le))

/-- Matches 1, 2 and 3. -/
def threeMatches : Tables Unit where
  events := [(3, none), (1, none), (2, none), (1, some .active)]
  row _ := some ()

theorem walks_exact_iff_threeMatches :
    (forward (fun _ => threeMatches) none 2 4 0 none).flatten.map (·.matchId) = [1, 2, 3] ∧
      threeMatches.BackwardExact none 3 10 := by
  have hbefore : ∀ m ∈ threeMatches.sorted none, m.matchId < 10 := by decide
  refine ⟨?_, (walks_exact_iff (by decide : 0 < 3) hbefore).2.2.2.mpr (by decide)⟩
  rw [show 4 = (threeMatches.sorted none).length + 1 by decide,
    (walks_exact_iff (by decide : 0 < 2) hbefore).2.1]
  decide

/-- Pages of one match, before 10 : the first has match 1, and there is no second. -/
theorem backward_walk_skips :
    (threeMatches.backward none 1 4 10).map (fun p => (p.1, p.2.map (·.matchId))) = [(10, [1])] ∧
      ¬threeMatches.BackwardExact none 1 10 := by
  refine ⟨by decide, fun h => absurd h.1.length_eq (by decide)⟩

end Tables

end Checkmate.Indexer
