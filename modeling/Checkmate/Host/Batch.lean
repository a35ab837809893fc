import Checkmate.Host.Run
import Checkmate.Host.Tx

/-!
# Batches as runs

A batch is the run of a machine whose events are the entries : a step leads to what the
entry leaves behind, whether it returns or fails (`Tx.entry`). A batch that returns ends
where this run ends (`Tx.batch_run`), and what it reports about an entry together with the
states before and after it is a property of the entry in the state it is processed in
(`Tx.batch_entries_iff`), that is, of the run (`Along`). Entries that act at most once
(`Tx.OneShot`) may be repeated : the ones reported as done are those that could act at the
start, each once.
-/

namespace Checkmate

open List

namespace Tx

variable {ρ σ ε α : Type} {f : α → Tx ρ σ ε Unit} {r : ρ} {s s' : σ} {a : α} {l : List α}
  {os : List (Option ε)}

/-- What an entry leaves behind. -/
def entry (f : α → Tx ρ σ ε Unit) (r : ρ) (s : σ) (a : α) : σ :=
  match f a r s with
  | .ok _ s' => s'
  | .err _ s' => s'
  | .trap => s

/-- What is reported about an entry. -/
def report (f : α → Tx ρ σ ε Unit) (r : ρ) (s : σ) (a : α) : Option ε :=
  match f a r s with
  | .err e _ => some e
  | _ => none

theorem entry_of_ok {u : Unit} (h : f a r s = .ok u s') : entry f r s a = s' := by
  rw [entry, h]

theorem entry_of_err {e : ε} (h : f a r s = .err e s') : entry f r s a = s' := by
  rw [entry, h]

/-- What holds however an entry ends. -/
theorem entry_cases {P : σ → Prop} (htrap : P s) (hok : ∀ s', f a r s = .ok () s' → P s')
    (herr : ∀ e s', f a r s = .err e s' → P s') : P (entry f r s a) := by
  unfold entry
  cases hf : f a r s with
  | ok u s' => exact hok s' hf
  | err e s' => exact herr e s' hf
  | trap => exact htrap

theorem report_of_ok {u : Unit} (h : f a r s = .ok u s') : report f r s a = none := by
  rw [report, h]

theorem report_eq_some {e : ε} (h : report f r s a = some e) :
    f a r s = .err e (entry f r s a) := by
  unfold report at h
  unfold entry
  cases hf : f a r s with
  | err =>
    rw [hf] at h
    rw [Option.some.inj h]
  | ok | trap => simp [hf] at h

/-- A batch that returns has made its first entry and goes on with the others. -/
theorem batch_cons_ok (h : batch f (a :: l) r s = .ok os s') :
    f a r s ≠ .trap ∧ ∃ os', os = report f r s a :: os' ∧
      batch f l r (entry f r s a) = .ok os' s' := by
  simp only [batch, bind_ok_iff, attempt_ok_iff, pure_ok_iff] at h
  obtain ⟨o, s1, hx, os', s2, hl, rfl, rfl⟩ := h
  rcases hx with ⟨rfl, hx⟩ | ⟨e, rfl, hx⟩
  · refine ⟨by simp [hx], os', ?_, ?_⟩
    · rw [report_of_ok hx]
    · rwa [entry_of_ok hx]
  · refine ⟨by simp [hx], os', ?_, ?_⟩
    · rw [report, hx]
    · rwa [entry_of_err hx]

/-- A batch that returns ends where the run of its entries ends, and none of them traps. -/
theorem batch_run (h : batch f l r s = .ok os s') :
    s' = run (entry f r) s l ∧ Along (entry f r) (fun s a => f a r s ≠ .trap) s l := by
  induction l generalizing s os with
  | nil => exact ⟨(pure_ok_iff.mp h).2, trivial⟩
  | cons a l ih =>
    obtain ⟨htrap, os', -, hl⟩ := batch_cons_ok h
    obtain ⟨hrun, hal⟩ := ih hl
    exact ⟨hrun, htrap, hal⟩

/-- Every entry is reported on. -/
theorem batch_length (h : batch f l r s = .ok os s') : os.length = l.length := by
  induction l generalizing s os with
  | nil => simp [(pure_ok_iff.mp h).1]
  | cons a l ih =>
    obtain ⟨-, os', rfl, hl⟩ := batch_cons_ok h
    rw [length_cons, length_cons, ih hl]

/-- A batch of which no entry traps returns. -/
theorem batch_of_along (h : Along (entry f r) (fun s a => f a r s ≠ .trap) s l) :
    ∃ os s', batch f l r s = .ok os s' := by
  induction l generalizing s with
  | nil => exact ⟨[], s, rfl⟩
  | cons a l ih =>
    obtain ⟨htrap, hal⟩ := h
    obtain ⟨os, s', hl⟩ := ih hal
    refine ⟨report f r s a :: os, s', ?_⟩
    simp only [batch, bind_ok_iff, attempt_ok_iff, pure_ok_iff]
    refine ⟨_, entry f r s a, ?_, os, s', hl, rfl, rfl⟩
    cases hf : f a r s with
    | ok => exact .inl ⟨by rw [report, hf], by rw [entry, hf]⟩
    | err e => exact .inr ⟨e, by rw [report, hf], by rw [entry, hf]⟩
    | trap => exact absurd hf htrap

/-- Each report is about the entry in the state it is processed in. -/
theorem batch_report (h : batch f l r s = .ok os s') {i : ℕ} (ha : l[i]? = some a) :
    os[i]? = some (report f r (run (entry f r) s (l.take i)) a) := by
  induction l generalizing s os i with
  | nil => simp at ha
  | cons b l ih =>
    obtain ⟨-, os', rfl, hl⟩ := batch_cons_ok h
    cases i with
    | zero =>
      obtain rfl := Option.some.inj ha
      rfl
    | succ => exact ih hl ha

/-- What holds of every entry, its report and the states around it. -/
theorem batch_entries_iff {Q : α → Option ε → σ → σ → Prop} (h : batch f l r s = .ok os s') :
    (∀ (i : ℕ) a o, l[i]? = some a → os[i]? = some o →
      Q a o (run (entry f r) s (l.take i)) (run (entry f r) s (l.take (i + 1)))) ↔
    Along (entry f r) (fun s a => Q a (report f r s a) s (entry f r s a)) s l := by
  induction l generalizing s os with
  | nil => simp [Along]
  | cons a l ih =>
    obtain ⟨-, os', rfl, hl⟩ := batch_cons_ok h
    rw [Along, ← ih hl]
    constructor
    · intro hall
      exact ⟨hall 0 a _ rfl rfl, fun i b o => hall (i + 1) b o⟩
    · rintro ⟨hhead, htail⟩ i b o hb ho
      cases i with
      | zero =>
        obtain rfl := Option.some.inj hb
        obtain rfl := Option.some.inj ho
        exact hhead
      | succ i => exact htail i b o hb ho

/-- What holds of every entry that is reported as failed, and the states around it. -/
theorem batch_errs_iff {Q : σ → σ → Prop} (h : batch f l r s = .ok os s') :
    (∀ (i : ℕ) (e : ε), os[i]? = some (some e) →
      Q (run (entry f r) s (l.take i)) (run (entry f r) s (l.take (i + 1)))) ↔
    Along (entry f r) (fun s a => ∀ e s', f a r s = .err e s' → Q s s') s l := by
  have hentries := batch_entries_iff (Q := fun _ o s s' => ∀ e, o = some e → Q s s') h
  have hreport : (fun s a => ∀ e, report f r s a = some e → Q s (entry f r s a)) =
      fun s a => ∀ e s', f a r s = .err e s' → Q s s' := by
    funext s a
    refine propext ⟨fun hQ e s' he => ?_, fun hQ e he => hQ e _ (report_eq_some he)⟩
    rw [← entry_of_err he]
    exact hQ e (by rw [report, he])
  rw [← hreport, ← hentries]
  constructor
  · intro hall i a o _ ho e he
    exact hall i e (he ▸ ho)
  · intro hall i e he
    obtain ⟨hi, -⟩ := List.getElem?_eq_some_iff.mp he
    rw [batch_length h] at hi
    exact hall i _ _ (List.getElem?_eq_getElem hi) he e rfl

/-! ## Entries that act at most once -/

/-- The entries that were reported as done. -/
def returned (l : List α) (os : List (Option ε)) : List α :=
  ((l.zip os).filter fun o => o.2.isNone).map Prod.fst

/-- Every entry has its own part of the state, `view s a`. An entry that returns finds `P` of
its part and ends it ; one that fails does not find it, and has no effect. -/
structure OneShot {β : Type} (f : α → Tx ρ σ ε Unit) (r : ρ) (J : σ → Prop) (view : σ → α → β)
    (P : β → Prop) : Prop where
  inv : ∀ {s s' a u}, J s → f a r s = .ok u s' → J s'
  live : ∀ {s s' a u}, J s → f a r s = .ok u s' → P (view s a)
  spent : ∀ {s s' a u}, J s → f a r s = .ok u s' → ¬P (view s' a)
  frame : ∀ {s s' a u}, J s → f a r s = .ok u s' → ∀ b, b ≠ a → view s' b = view s b
  idle : ∀ {s s' a e}, J s → f a r s = .err e s' → s' = s ∧ ¬P (view s a)

namespace OneShot

variable {β : Type} {J : σ → Prop} {view : σ → α → β} {P : β → Prop}

section

variable (hf : OneShot f r J view P)

include hf

theorem mem_returned (hJ : J s) (h : batch f l r s = .ok os s')
    (b : α) : b ∈ returned l os ↔ b ∈ l ∧ P (view s b) := by
  induction l generalizing s os with
  | nil => simp [returned]
  | cons a l ih =>
    obtain ⟨htrap, os', rfl, hl⟩ := batch_cons_ok h
    cases hrun : f a r s with
    | trap => exact absurd hrun htrap
    | ok =>
      rw [entry_of_ok hrun] at hl
      have htail := ih (hf.inv hJ hrun) hl
      simp only [returned] at htail
      simp only [returned, report_of_ok hrun, zip_cons_cons, filter_cons,
        Option.isNone_none, if_true, map_cons, mem_cons, htail]
      by_cases hb : b = a
      · simp [hb, hf.live hJ hrun]
      · simp [hb, hf.frame hJ hrun b hb]
    | err =>
      obtain ⟨rfl, hdead⟩ := hf.idle hJ hrun
      rw [entry_of_err hrun] at hl
      have htail := ih hJ hl
      simp only [returned] at htail
      simp only [returned, report, hrun, zip_cons_cons, filter_cons,
        Option.isNone_some, Bool.false_eq_true, if_false, htail, mem_cons]
      by_cases hb : b = a
      · simp [hb, hdead]
      · simp [hb]

theorem nodup_returned (hJ : J s) (h : batch f l r s = .ok os s') :
    (returned l os).Nodup := by
  induction l generalizing s os with
  | nil => simp [returned]
  | cons a l ih =>
    obtain ⟨htrap, os', rfl, hl⟩ := batch_cons_ok h
    cases hrun : f a r s with
    | trap => exact absurd hrun htrap
    | ok =>
      rw [entry_of_ok hrun] at hl
      have hJ' := hf.inv hJ hrun
      have hnew : a ∉ returned l os' := fun ha =>
        hf.spent hJ hrun ((hf.mem_returned hJ' hl a).mp ha).2
      have hcons : returned (a :: l) (report f r s a :: os') = a :: returned l os' := by
        simp [returned, report_of_ok hrun]
      rw [hcons]
      exact nodup_cons.mpr ⟨hnew, ih hJ' hl⟩
    | err e s1 =>
      obtain ⟨rfl, -⟩ := hf.idle hJ hrun
      rw [entry_of_err hrun] at hl
      have hcons : returned (a :: l) (report f r s1 a :: os') = returned l os' := by
        simp [returned, report, hrun]
      rw [hcons]
      exact ih hJ hl

/-- However an entry ends, the parts of the others stay as they are. -/
theorem entry_frame (hJ : J s) (htrap : f a r s ≠ .trap) :
    J (entry f r s a) ∧ ∀ b, b ≠ a → view (entry f r s a) b = view s b := by
  cases hrun : f a r s with
  | trap => exact absurd hrun htrap
  | ok =>
    rw [entry_of_ok hrun]
    exact ⟨hf.inv hJ hrun, hf.frame hJ hrun⟩
  | err =>
    obtain ⟨rfl, -⟩ := hf.idle hJ hrun
    rw [entry_of_err hrun]
    exact ⟨hJ, fun _ _ => rfl⟩

theorem entry_of_not (hJ : J s) (ha : ¬P (view s a)) :
    entry f r s a = s := by
  refine entry_cases (P := fun s' => s' = s) rfl (fun s1 hrun => ?_) fun e s1 hrun => ?_
  · exact absurd (hf.live hJ hrun) ha
  · exact (hf.idle hJ hrun).1

/-- An entry that does not find `P` at the start has no effect. -/
theorem run_of_not (hJ : J s) (h : batch f l r s = .ok os s')
    {b : α} (hb : ¬P (view s b)) (i : ℕ) (hi : l[i]? = some b) :
    run (entry f r) s (l.take (i + 1)) = run (entry f r) s (l.take i) := by
  induction l generalizing s os i with
  | nil => simp at hi
  | cons a l ih =>
    obtain ⟨htrap, os', rfl, hl⟩ := batch_cons_ok h
    obtain ⟨hJ', hframe⟩ := hf.entry_frame hJ htrap
    cases i with
    | zero =>
      obtain rfl := Option.some.inj hi
      simp [hf.entry_of_not hJ hb]
    | succ i =>
      refine ih hJ' hl ?_ i hi
      by_cases hba : b = a
      · subst hba
        rwa [hf.entry_of_not hJ hb]
      · rwa [hframe b hba]

/-- An entry that finds `P` at the start acts once, on the part of the state it found. -/
theorem run_of (hJ : J s) (h : batch f l r s = .ok os s') {b : α}
    (hmem : b ∈ l) (hb : P (view s b)) : ∃ i, l[i]? = some b ∧ J (run (entry f r) s (l.take i)) ∧
      view (run (entry f r) s (l.take i)) b = view s b ∧
      f b r (run (entry f r) s (l.take i)) = .ok () (run (entry f r) s (l.take (i + 1))) ∧
      ∀ j, j ≠ i → l[j]? = some b →
        run (entry f r) s (l.take (j + 1)) = run (entry f r) s (l.take j) := by
  induction l generalizing s os with
  | nil => simp at hmem
  | cons a l ih =>
    obtain ⟨htrap, os', rfl, hl⟩ := batch_cons_ok h
    obtain ⟨hJ', hframe⟩ := hf.entry_frame hJ htrap
    by_cases hba : b = a
    · -- the first entry acts, and no later one finds `P` again
      subst hba
      cases hrun : f b r s with
      | trap => exact absurd hrun htrap
      | err => exact absurd hb (hf.idle hJ hrun).2
      | ok =>
        refine ⟨0, rfl, hJ, rfl, by simp [entry_of_ok hrun, hrun], fun j hj hjb => ?_⟩
        obtain ⟨j, rfl⟩ := Nat.exists_eq_succ_of_ne_zero hj
        refine hf.run_of_not hJ' hl ?_ j hjb
        rw [entry_of_ok hrun]
        exact hf.spent hJ hrun
    · have hview := hframe b hba
      obtain ⟨i, hi, hJi, hvi, hact, hothers⟩ := ih hJ' hl
        ((mem_cons.mp hmem).resolve_left hba) (by rwa [hview])
      refine ⟨i + 1, hi, hJi, hvi.trans hview, hact, fun j hj hjb => ?_⟩
      cases j with
      | zero => exact absurd (Option.some.inj hjb).symm hba
      | succ j => exact hothers j (by omega) hjb

end

end OneShot

end Tx

end Checkmate
