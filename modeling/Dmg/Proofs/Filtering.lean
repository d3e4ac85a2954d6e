import Dmg.CommandLine.Report
import Dmg.Proofs.Matching

/-! # What a log shows

Rules are compared by how closely they describe a source, and one of them decides
(`LogFilter.IsClosest`). With the matches of a pattern this says which events a filter admits, and those
are the ones that it shows (`LogFilter.shows_iff`) and that the log of a command has entries for
(`CommandLine.LogSettings.logged_iff`). -/

namespace Dmg

namespace LogFilter

/-- Of the rules that cover a source, the one that describes it most closely, and of several that do so
equally the last; none where no rule covers it. -/
def IsClosest (source : String) (rules : List LogRule) : Option LogRule → Prop
  | none => ∀ q ∈ rules, q.covers source = false
  | some r => r.covers source = true ∧ ∃ before after, rules = before ++ r :: after ∧
    (∀ q ∈ before, q.covers source = true → q.closeness ≤ r.closeness) ∧
    ∀ q ∈ after, q.covers source = true → q.closeness < r.closeness

theorem IsClosest.concat {source : String} {rules : List LogRule} {best : Option LogRule}
    (h : IsClosest source rules best) (r : LogRule) :
    IsClosest source (rules ++ [r])
      (if r.covers source ∧ best.all (·.closeness ≤ r.closeness) then some r else best) := by
  split
  · next hr =>
    refine ⟨hr.1, rules, [], rfl, fun q hq hcovers => ?_, nofun⟩
    cases best with
    | none => simp [h q hq] at hcovers
    | some p =>
      obtain ⟨-, before, after, rfl, hbefore, hafter⟩ := h
      have hp : p.closeness ≤ r.closeness := by simpa using hr.2
      rcases List.mem_append.1 hq with hq | hq
      · exact Nat.le_trans (hbefore q hq hcovers) hp
      · rcases List.mem_cons.1 hq with rfl | hq
        · exact hp
        · exact Nat.le_trans (Nat.le_of_lt (hafter q hq hcovers)) hp
  · next hr =>
    cases best with
    | none =>
      intro q hq
      rcases List.mem_append.1 hq with hq | hq
      · exact h q hq
      · rw [List.mem_singleton.1 hq]
        simpa using hr
    | some p =>
      obtain ⟨hp, before, after, rfl, hbefore, hafter⟩ := h
      refine ⟨hp, before, after ++ [r], by simp, hbefore, fun q hq hcovers => ?_⟩
      rcases List.mem_append.1 hq with hq | hq
      · exact hafter q hq hcovers
      · obtain rfl := List.mem_singleton.1 hq
        simpa [hcovers] using hr

theorem IsClosest.eq_of_before {source : String} {before after before' after' : List LogRule}
    {r r' : LogRule} (hr : r.covers source = true) (hr' : r'.covers source = true)
    (hafter : ∀ q ∈ after, q.covers source = true → q.closeness < r.closeness)
    (hbefore' : ∀ q ∈ before', q.covers source = true → q.closeness ≤ r'.closeness)
    {between : List LogRule} (h : before' = before ++ between)
    (h' : r :: after = between ++ r' :: after') : r = r' := by
  cases between with
  | nil => exact (List.cons.inj h').1
  | cons q between =>
    obtain ⟨rfl, rfl⟩ := List.cons.inj h'
    have hle := hbefore' r (by simp [h]) hr
    have hlt := hafter r' (by simp) hr'
    omega

/-- There are no two closest rules. -/
theorem IsClosest.unique {source : String} {rules : List LogRule} {a b : Option LogRule}
    (ha : IsClosest source rules a) (hb : IsClosest source rules b) : a = b := by
  cases a with
  | none =>
    cases b with
    | none => rfl
    | some r =>
      obtain ⟨hr, before, after, rfl, -⟩ := hb
      simp [ha r (by simp)] at hr
  | some r =>
    obtain ⟨hr, before, after, rfl, hbefore, hafter⟩ := ha
    cases b with
    | none => simp [hb r (by simp)] at hr
    | some r' =>
      obtain ⟨hr', before', after', heq, hbefore', hafter'⟩ := hb
      rcases List.append_eq_append_iff.1 heq with ⟨between, h, h'⟩ | ⟨between, h, h'⟩
      · rw [eq_of_before hr hr' hafter hbefore' h h']
      · rw [eq_of_before hr' hr hafter' hbefore h h']

theorem threshold_eq (f : LogFilter) (source : String) :
    ∃ best, IsClosest source f.rules best ∧ f.threshold source = best.bind (·.threshold) := by
  suffices h : ∀ (rest rules : List LogRule) (best : Option LogRule), IsClosest source rules best →
      IsClosest source (rules ++ rest) (rest.foldl (fun best r =>
        if r.covers source ∧ best.all (·.closeness ≤ r.closeness) then some r else best) best) from
    ⟨_, h f.rules [] none nofun, rfl⟩
  intro rest
  induction rest with
  | nil => simp
  | cons r rest ih =>
    intro rules best h
    rw [List.append_cons]
    exact ih _ _ (h.concat r)

/-- The event is a record, the closest rule for its source admits its level, and the pattern, if there is
one, matches some part of its message. -/
def Admits (f : LogFilter) (source : String) (e : Event) : Prop :=
  ∃ l, e.level? = some l ∧
    (∃ best, IsClosest source f.rules best ∧ Threshold.shows (best.bind (·.threshold)) l = true) ∧
    ∀ p ∈ f.pattern, ∃ i j, j ≤ e.message.length ∧ p.Matches e.message.toList.toArray i j

theorem shows_iff (f : LogFilter) (source : String) (e : Event) :
    f.shows source e = true ↔ f.Admits source e := by
  obtain ⟨best, hbest, hthreshold⟩ := f.threshold_eq source
  have hlevel (l : Level) : (f.threshold source).shows l = true ↔
      ∃ best, IsClosest source f.rules best ∧ Threshold.shows (best.bind (·.threshold)) l = true := by
    rw [hthreshold]
    exact ⟨fun h => ⟨best, hbest, h⟩, fun ⟨_, hbest', h⟩ => hbest.unique hbest' ▸ h⟩
  have hpattern : f.pattern.all (·.occursIn e.message) = true ↔
      ∀ p ∈ f.pattern, ∃ i j, j ≤ e.message.length ∧ p.Matches e.message.toList.toArray i j := by
    simp only [Option.all_eq_true, Pattern.occursIn_iff, Option.mem_def]
  rw [shows, Admits]
  split
  · next l hl => simp [hl, hlevel, hpattern]
  · next hl => simp [hl]

end LogFilter

/-- The log of a command has an entry for each event that its filter admits, and no other. -/
theorem CommandLine.LogSettings.logged_iff (log : LogSettings) (e : Event) (entry : String) :
    log.libraries.logged e = some entry ↔
      entry = hanging e.logLine ∧ log.filter.Admits (log.name e.source) e := by
  rw [← LogFilter.shows_iff]
  cases hl : e.level? with
  | none => simp [Libraries.logged, LogFilter.shows, hl]
  | some l =>
    have hlogged : log.libraries.logged e =
        if log.filter.shows (log.name e.source) e then some (hanging e.logLine) else none := by
      rw [Libraries.logged, hl]
      rfl
    rw [hlogged]
    split
    · next h => simp [h, eq_comm]
    · next h => simp [h]

end Dmg
