import Lineage.Reconciliation.Findings

/-!
# How many findings a reconciliation gives rise to

The findings of a reconciliation come in three parts, each of which is there or not for a reason of
its own. Hence their number can be said without looking at any of them (`length_findings`). All of
them are about the object that was reconciled, so whether the object counts as one with findings
depends only on whether there are any. The severities that a user sets are written into the findings
and decide nothing else (`findings_overrides`).
-/

namespace Lineage.Reconciliation

variable {settings : Settings} {r : Reconciliation} {f : Finding}

theorem object_of_mem_findings (h : f ∈ r.findings settings) : f.object = some r.fullName := by
  rw [findings] at h
  split at h
  · exact absurd h List.not_mem_nil
  rcases List.mem_append.mp h with h | h
  · rcases List.mem_append.mp h with h | h
    · split at h
      · exact absurd h List.not_mem_nil
      · rw [List.mem_singleton.mp h]
        rfl
    · obtain ⟨o, -, rfl⟩ := List.mem_map.mp h
      rfl
  · split at h
    · exact absurd h List.not_mem_nil
    · obtain ⟨warning, -, rfl⟩ := List.mem_map.mp h
      rfl

theorem length_warning? (r : Reconciliation) :
    r.warning?.toList.length = if r.hasDynamicSql then 1 else 0 := by
  rw [warning?]
  split <;> rfl

/-- **One finding for each new object, one for a missing source text, and one for statements built
at run time.** An object that is skipped has none, and the last is left out where such statements
are expected. -/
theorem length_findings (settings : Settings) (r : Reconciliation) :
    (r.findings settings).length =
      if settings.allowlist.skips r.fullName then 0
      else r.unlisted.length + (if r.hasSource then 0 else 1) +
        if r.hasDynamicSql ∧ settings.allowlist.allowsDynamicSql r.fullName = false then 1
        else 0 := by
  have hsource : (if r.hasSource then [] else [r.unavailableFinding settings]).length =
      if r.hasSource then 0 else 1 := by
    split <;> rfl
  have hdynamic : (if settings.allowlist.allowsDynamicSql r.fullName then []
      else r.warning?.toList.map (r.finding settings .dynamicSql)).length =
      if r.hasDynamicSql ∧ settings.allowlist.allowsDynamicSql r.fullName = false then 1
      else 0 := by
    cases settings.allowlist.allowsDynamicSql r.fullName with
    | true => simp
    | false => simp [length_warning?]
  rw [findings]
  split
  · rfl
  · rw [List.length_append, List.length_append, List.length_map, hsource, hdynamic,
      Nat.add_comm (if r.hasSource then 0 else 1)]

/-- **What is found does not depend on the severities that are set.** With other severities the
findings are the same, in the same order, but for their severities. -/
theorem findings_overrides (settings : Settings) (overrides : SeverityOverrides)
    (r : Reconciliation) :
    (r.findings { settings with overrides }).map ({ · with severity := .info }) =
      (r.findings settings).map ({ · with severity := .info }) := by
  rw [findings, findings]
  split
  · rfl
  · rw [List.map_append, List.map_append, List.map_append, List.map_append, List.map_map,
      List.map_map]
    congr 1
    · congr 1
      split <;> rfl
    · split
      · rfl
      · rw [List.map_map, List.map_map]
        rfl

end Lineage.Reconciliation
