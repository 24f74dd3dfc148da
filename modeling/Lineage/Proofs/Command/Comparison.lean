import Lineage.Command.Run
import Lineage.Proofs.Finding.Report
import Lineage.Proofs.Reconciliation.Findings
import Mathlib.Algebra.GroupWithZero.Nat
import Mathlib.Data.List.Forall2

/-!
# The report of a comparison

A comparison goes through its targets one by one, prints as it goes and makes its report at the end.
Where every target has a name nothing can stop it on the way: each step only prints
(`Session.OnlyPrints`), so what is at hand at the end is the reconciliations of all targets. What
the report says is then worked out without any session, from the number of findings of each
reconciliation and from the summary that follows the findings.

At the end the report may be saved, which is the one thing that can still fail, and the command then
fails with it. Otherwise its status is that of the report, whatever it printed
(`Session.exists_run_conclude`).

A target may be named twice, or once in each of two spellings. Each time counts for the total, but
the object counts once among those with findings.
-/

namespace Lineage

/-- The objects that a comparison is about: all program units, or those that are given. -/
def Snapshot.targets (s : Snapshot) (objects : List String) (all : Bool) : List String :=
  if all then s.programUnits else objects

/-- The outcomes for the objects of some names. -/
def Snapshot.reconciled (s : Snapshot) (named : List (String × String)) : List Reconciliation :=
  named.map fun p ↦ (Reconciler.ofSnapshot s).reconcile p.1 p.2

/-- Outcomes with the findings that each gives rise to. -/
def Context.withFindings (c : Context) (results : List Reconciliation) :
    List (Reconciliation × List Finding) := results.map fun r ↦ (r, r.findings c.settings)

theorem Context.withFindings_reconciled (c : Context) (s : Snapshot)
    (named : List (String × String)) :
    c.withFindings (s.reconciled named) = named.map fun p ↦ c.examine (.ofSnapshot s) p.1 p.2 :=
  List.map_map

namespace Session

variable {m : Type → Type} [Monad m] [LawfulMonad m] {α β : Type} {c : Context}

/-! ## Steps that only print -/

/-- Whether a step, whatever was printed before, does no more than print and gives a value. -/
def OnlyPrints (x : Session m α) (a : α) : Prop := ∀ t, ∃ t', x.run.run t = pure (.ok a, t')

omit [LawfulMonad m] in
theorem onlyPrints_pure (a : α) : OnlyPrints (pure a : Session m α) a := fun t ↦ ⟨t, rfl⟩

theorem OnlyPrints.run_bind {x : Session m α} {a : α} (hx : OnlyPrints x a) (f : α → Session m β)
    (t : Transcript) : ∃ t', (x >>= f).run.run t = (f a).run.run t' := by
  obtain ⟨t', hx⟩ := hx t
  refine ⟨t', ?_⟩
  rw [ExceptT.run_bind, StateT.run_bind, hx, pure_bind]

theorem OnlyPrints.bind {x : Session m α} {f : α → Session m β} {a : α} {b : β}
    (hx : OnlyPrints x a) (hf : OnlyPrints (f a) b) : OnlyPrints (x >>= f) b := by
  intro t
  obtain ⟨t', hx⟩ := hx.run_bind f t
  rw [hx]
  exact hf t'

theorem onlyPrints_modify (f : Transcript → Transcript) :
    OnlyPrints (modify f : Session m Unit) () := fun t ↦ ⟨f t, pure_bind ((), f t) _⟩

theorem onlyPrints_print (text : String) : OnlyPrints (print text : Session m Unit) () :=
  onlyPrints_modify _

theorem onlyPrints_note (text : String) : OnlyPrints (note text : Session m Unit) () :=
  onlyPrints_modify _

theorem onlyPrints_progress (c : Context) (text : String) :
    OnlyPrints (progress c text : Session m Unit) () := by
  rw [progress]
  split
  · exact onlyPrints_modify _
  · exact onlyPrints_pure ()

theorem onlyPrints_compareOne (r : Reconciler) {target : String} {p : String × String}
    (h : qualify target c.owner = .ok p) :
    OnlyPrints (compareOne c r target : Session m _) (c.examine r p.1 p.2) := by
  have hqualified : (qualified c target : Session m _) = pure p := by rw [qualified, h, ofExcept]
  have hrest : OnlyPrints (do progress c (verdict (c.examine r p.1 p.2).2)
                              pure (c.examine r p.1 p.2) : Session m _) (c.examine r p.1 p.2) :=
    (onlyPrints_progress c _).bind (onlyPrints_pure _)
  rw [compareOne, hqualified, pure_bind]
  refine (onlyPrints_progress c _).bind ?_
  cases hjson : c.options.json with
  | true => simpa [hjson] using hrest
  | false => simpa [hjson] using (onlyPrints_print _).bind hrest

theorem onlyPrints_mapM_compareOne (r : Reconciler) {targets : List String}
    {named : List (String × String)}
    (h : List.Forall₂ (fun target p ↦ qualify target c.owner = .ok p) targets named) :
    OnlyPrints (targets.mapM (compareOne c r) : Session m _)
      (named.map fun p ↦ c.examine r p.1 p.2) := by
  induction h with
  | nil => exact onlyPrints_pure []
  | cons hfirst _ ih =>
    rw [List.mapM_cons]
    exact (onlyPrints_compareOne r hfirst).bind (ih.bind (onlyPrints_pure _))

/-! ## The end of a report -/

theorem run_liftM_bind (x : m α) (f : α → Session m β) (t : Transcript) :
    ((liftM x : Session m α) >>= f).run.run t = x >>= fun a ↦ (f a).run.run t := by
  have hlift : (liftM x : Session m α).run.run t = x >>= fun a ↦ pure (.ok a, t) := by
    change (ExceptT.lift (StateT.lift x)).run.run t = _
    rw [ExceptT.run_lift, StateT.run_map, StateT.run_lift, map_bind]
    simp only [map_pure]
  rw [ExceptT.run_bind, StateT.run_bind, hlift, bind_assoc]
  simp only [pure_bind]

theorem onlyPrints_finish (c : Context) (r : Report) (value : Json) :
    OnlyPrints (finish c r value : Session m Nat) r.exitCode := by
  rw [finish, printEither]
  split
  · exact (onlyPrints_print _).bind (onlyPrints_pure _)
  · exact (onlyPrints_print _).bind (onlyPrints_pure _)

omit [LawfulMonad m] in
/-- What becomes of the file that a report is to be saved in, if one is given. -/
def written (env : Environment m) (r : Report) : Option String → m (Except FileError Unit)
  | some path => env.files.write path r.write
  | none => pure (.ok ())

/-- Unless the file cannot be written, a report ends with its status. -/
theorem exists_run_conclude (env : Environment m) (c : Context) (r : Report)
    (output : Option String) (value : Json) (t : Transcript) :
    ∃ printed : Except FileError Unit → Transcript,
      (conclude env c r output value).run.run t = do
        let saved ← written env r output
        return ((saved.mapError .reportUnwritten).map fun _ ↦ r.exitCode, printed saved) := by
  cases output with
  | none =>
    obtain ⟨t', hfinish⟩ := onlyPrints_finish (m := m) c r value t
    refine ⟨fun _ ↦ t', ?_⟩
    rw [conclude, saveReport?, pure_bind, written, pure_bind, hfinish]
    rfl
  | some path =>
    have hend : OnlyPrints (note ("Report saved to: " ++ path ++ "\n") >>= fun _ ↦
        finish c r value : Session m Nat) r.exitCode :=
      (onlyPrints_note _).bind (onlyPrints_finish c r value)
    obtain ⟨t', hend⟩ := hend t
    -- an error ends the session, so nothing is printed after it
    refine ⟨fun saved ↦ if saved.isOk then t' else t, ?_⟩
    rw [conclude, saveReport?, saveReport, bind_assoc, run_liftM_bind, written]
    refine bind_congr fun saved ↦ ?_
    cases saved with
    | ok _ => rw [ofExcept, bind_assoc, pure_bind, hend]; rfl
    | error reason =>
      rw [ofExcept, bind_assoc, ExceptT.run_bind, ExceptT.run_throw, pure_bind]
      rfl

/-! ## Going through the targets -/

omit [LawfulMonad m] in
theorem targets_eq (s : Snapshot) {objects : List String} {all : Bool}
    (h : all = true ∨ objects ≠ []) :
    (targets s objects all : Session m _) = pure (s.targets objects all) := by
  cases all with
  | true => rfl
  | false =>
    obtain ⟨first, rest, rfl⟩ := List.exists_cons_of_ne_nil (h.resolve_left Bool.false_ne_true)
    rfl

/-- A comparison whose targets all have a name comes to its report, after it has printed. -/
theorem exists_run_compare (env : Environment m) (c : Context) (s : Snapshot)
    (output : Option String) {objects : List String} {all : Bool} {named : List (String × String)}
    (htargets : all = true ∨ objects ≠ [])
    (hnamed : List.Forall₂ (fun target p ↦ qualify target c.owner = .ok p)
      (s.targets objects all) named) (t : Transcript) :
    let compared := c.withFindings (s.reconciled named)
    ∃ t', (compare env c s objects all output).run.run t = env.now >>= fun now ↦
      let report := c.comparisonReport now (s.targets objects all) compared
      (conclude env c report output (report.comparisonToJson compared)).run.run t' := by
  intro compared
  obtain ⟨t', hcompared⟩ := (onlyPrints_mapM_compareOne (.ofSnapshot s) hnamed).run_bind
    (fun compared ↦ (do
      let report := c.comparisonReport (← env.now) (s.targets objects all) compared
      conclude env c report output (report.comparisonToJson compared) : Session m Nat)) t
  refine ⟨t', ?_⟩
  rw [compare, targets_eq s htargets, pure_bind, hcompared, ← c.withFindings_reconciled,
    run_liftM_bind]

/-- The status of a comparison is that of its report, unless the report cannot be saved. -/
theorem exists_outcomeOf_compare (env : Environment m) (c : Context) (s : Snapshot)
    (output : Option String) {objects : List String} {all : Bool} {named : List (String × String)}
    (htargets : all = true ∨ objects ≠ [])
    (hnamed : List.Forall₂ (fun target p ↦ qualify target c.owner = .ok p)
      (s.targets objects all) named) (t : Transcript) :
    let report (now : String) :=
      c.comparisonReport now (s.targets objects all) (c.withFindings (s.reconciled named))
    ∃ printed : String → Except FileError Unit → Transcript,
      CommandLine.outcomeOf <$> (compare env c s objects all output).run.run t = do
        let now ← env.now
        let saved ← written env (report now) output
        return ⟨printed now saved, match saved with
          | .ok () => (report now).exitCode
          | .error _ => 1⟩ := by
  intro report
  obtain ⟨t', hcompare⟩ := exists_run_compare env c s output htargets hnamed t
  -- what is printed depends on the time and on what becomes of the file
  choose printed hprinted using fun now ↦ exists_run_conclude env c (report now) output
    ((report now).comparisonToJson (c.withFindings (s.reconciled named))) t'
  let result (now : String) (saved : Except FileError Unit) : Except CommandError Nat :=
    (saved.mapError .reportUnwritten).map fun _ ↦ (report now).exitCode
  refine ⟨fun now saved ↦ (CommandLine.outcomeOf (result now saved, printed now saved)).transcript,
    ?_⟩
  rw [hcompare, map_bind]
  refine bind_congr fun now ↦ ?_
  rw [hprinted, map_bind]
  refine bind_congr fun saved ↦ ?_
  rw [map_pure]
  cases saved with
  | ok _ => rfl
  | error _ => rfl

end Session

/-! ## What the report says -/

namespace Context

variable (c : Context) (now : String) (targets : List String) (results : List Reconciliation)

theorem isTallied_comparisonReport (compared : List (Reconciliation × List Finding)) :
    (c.comparisonReport now targets compared).IsTallied := by
  have h := (Report.isTallied_new .reconciliation now).addAll (compared.flatMap (·.2))
  exact ⟨h.errors, h.warnings, h.infos, h.objects⟩

theorem findings_comparisonReport :
    (c.comparisonReport now targets (c.withFindings results)).findings =
      results.flatMap (·.findings c.settings) := by
  have hfindings : (c.comparisonReport now targets (c.withFindings results)).findings =
      (c.withFindings results).flatMap (·.2) :=
    Report.findings_addAll (Report.new .reconciliation now) _
  rw [hfindings, withFindings, List.flatMap_map]

theorem total_comparisonReport :
    (c.comparisonReport now targets (c.withFindings results)).summary.total =
      ((results.filter (!c.settings.allowlist.skips ·.fullName)).map fun r ↦
        r.unlisted.length + (if r.hasSource then 0 else 1) +
          if r.hasDynamicSql ∧ c.settings.allowlist.allowsDynamicSql r.fullName = false then 1
          else 0).sum := by
  rw [(c.isTallied_comparisonReport now targets _).total_eq, findings_comparisonReport]
  induction results with
  | nil => rfl
  | cons r results ih =>
    rw [List.flatMap_cons, List.length_append, ih, Reconciliation.length_findings]
    -- a target that the allowlist skips counts on neither side
    cases hskips : c.settings.allowlist.skips r.fullName with
    | true => rw [if_pos rfl, Nat.zero_add, List.filter_cons_of_neg (by simp [hskips])]
    | false =>
      rw [if_neg Bool.false_ne_true, List.filter_cons_of_pos (by simp [hskips]), List.map_cons,
        List.sum_cons]

/-- An object counts once among those with findings, however often and in whatever case it is
named. -/
theorem objectsWithFindings_comparisonReport :
    (c.comparisonReport now targets (c.withFindings results)).summary.objectsWithFindings =
      ((results.filter fun r ↦ !(r.findings c.settings).isEmpty).map
        (Text.asciiFolded ·.fullName)).toFinset.card := by
  rw [(c.isTallied_comparisonReport now targets _).objects, findings_comparisonReport,
    Report.objectNames, length_distinctBy]
  congr 1
  ext name
  simp only [List.mem_toFinset, List.mem_map, List.mem_filterMap, List.mem_flatMap,
    List.mem_filter, Bool.not_eq_true', List.isEmpty_eq_false_iff_exists_mem]
  constructor
  · rintro ⟨_, ⟨f, ⟨r, hr, hf⟩, hobject⟩, rfl⟩
    rw [Reconciliation.object_of_mem_findings hf, Option.some_inj] at hobject
    exact ⟨r, ⟨hr, f, hf⟩, by rw [hobject]⟩
  · rintro ⟨r, ⟨hr, f, hf⟩, rfl⟩
    exact ⟨_, ⟨f, ⟨r, hr, hf⟩, Reconciliation.object_of_mem_findings hf⟩, rfl⟩

theorem findings_comparisonReport_overrides (overrides : SeverityOverrides) :
    let c' : Context := { c with settings := { c.settings with overrides } }
    (c'.comparisonReport now targets (c'.withFindings results)).findings.map
        ({ · with severity := .info }) =
      (c.comparisonReport now targets (c.withFindings results)).findings.map
        ({ · with severity := .info }) := by
  intro c'
  rw [findings_comparisonReport, findings_comparisonReport, List.map_flatMap, List.map_flatMap]
  exact List.flatMap_congr fun r _ ↦ r.findings_overrides c.settings overrides

end Context

/-- **A comparison accounts for every target.** Where all targets have a name the command comes to
its report, whatever was printed before and wherever the session runs, and its exit status tells
whether some finding of the report is an error; it fails only if the report is to be saved and
cannot be. The total of the report adds up, target by target, what each calls for; an object with
findings counts once, ignoring ASCII case; and with other severities the findings are the same in
all but these. -/
theorem compare_accounts_for_targets {m : Type → Type} [Monad m] [LawfulMonad m]
    (env : Environment m) (c : Context) (s : Snapshot) (objects : List String) (all : Bool)
    (output : Option String) (named : List (String × String))
    (htargets : all = true ∨ objects ≠ [])
    (hnamed : List.Forall₂ (fun target p ↦ qualify target c.owner = .ok p)
      (s.targets objects all) named) :
    let results := s.reconciled named
    let report (c : Context) (now : String) :=
      c.comparisonReport now (s.targets objects all) (c.withFindings results)
    (∀ t, ∃ t', (Session.compare env c s objects all output).run.run t = env.now >>= fun now ↦
      (Session.conclude env c (report c now) output
        ((report c now).comparisonToJson (c.withFindings results))).run.run t') ∧
    (∀ t, ∃ printed : String → Except FileError Unit → Transcript,
      CommandLine.outcomeOf <$> (Session.compare env c s objects all output).run.run t = do
        let now ← env.now
        let saved ← Session.written env (report c now) output
        return ⟨printed now saved, match saved with
          | .ok () => if ∃ f ∈ (report c now).findings, f.severity = .error then 1 else 0
          | .error _ => 1⟩) ∧
    ∀ now,
      (report c now).summary.total =
        ((results.filter (!c.settings.allowlist.skips ·.fullName)).map fun r ↦
          r.unlisted.length + (if r.hasSource then 0 else 1) +
            if r.hasDynamicSql ∧ c.settings.allowlist.allowsDynamicSql r.fullName = false then 1
            else 0).sum ∧
      (report c now).summary.objectsWithFindings =
        ((results.filter fun r ↦ !(r.findings c.settings).isEmpty).map
          (Text.asciiFolded ·.fullName)).toFinset.card ∧
      (report c now).exitCode =
        (if ∃ f ∈ (report c now).findings, f.severity = .error then 1 else 0) ∧
      ∀ overrides,
        (report { c with settings := { c.settings with overrides } } now).findings.map
            ({ · with severity := .info }) =
          (report c now).findings.map ({ · with severity := .info }) := by
  intro results report
  have hstatus : ∀ now, (report c now).exitCode =
      if ∃ f ∈ (report c now).findings, f.severity = .error then 1 else 0 :=
    fun now ↦ (c.isTallied_comparisonReport now _ _).exitCode_eq
  refine ⟨Session.exists_run_compare env c s output htargets hnamed, fun t ↦ ?_,
    fun now ↦ ⟨?_, ?_, hstatus now, ?_⟩⟩
  · -- the outcome has the status of the report, and the report that of its findings
    obtain ⟨printed, hprinted⟩ :=
      Session.exists_outcomeOf_compare env c s output htargets hnamed t
    refine ⟨printed, hprinted.trans (bind_congr fun now ↦ bind_congr fun saved ↦ ?_)⟩
    cases saved with
    | ok _ =>
      exact congrArg (fun code ↦ (pure ⟨printed now (.ok ()), code⟩ : m Outcome)) (hstatus now)
    | error _ => rfl
  · exact c.total_comparisonReport now _ results
  · exact c.objectsWithFindings_comparisonReport now _ results
  · exact c.findings_comparisonReport_overrides now _ results

/-- A snapshot with one source text, which builds statements while it runs. -/
def nightly : Snapshot :=
  { Snapshot.empty with
    sources := .ofList [("HR.LOAD",
      "BEGIN INSERT INTO emp SELECT * FROM orders; EXECUTE IMMEDIATE q; END;")] }

/-- Settings that skip temporary objects and take statements built at run time for an error. -/
def strict : Context where
  options := ⟨none, none, some "HR", true, true⟩
  settings :=
    { Settings.default with
      overrides := [("DEP_DYNAMIC_SQL", .error)]
      allowlist := ⟨["HR.TMP*"], []⟩ }

/-- A machine on which reports can be saved, at the start of a year. -/
def newYear : Environment Id :=
  ⟨⟨fun _ ↦ false, fun _ ↦ .error .notFound, fun _ _ ↦ .ok ()⟩, "2026-01-01T00:00:00+00:00"⟩

/-- The source text is compared under two spellings, an object without a text once, and one object
is skipped. The command ends with status one, as a statement built at run time is an error. -/
theorem compare_accounts_nightly :
    let named := [("hr", "load"), ("HR", "LOAD"), ("HR", "GONE"), ("hr", "tmp_gone")]
    let targets := ["hr.load", "LOAD", " HR.GONE", "hr.tmp_gone"]
    let report := strict.comparisonReport "2026-01-01T00:00:00+00:00" targets
      (strict.withFindings (nightly.reconciled named))
    List.Forall₂ (fun target p ↦ qualify target strict.owner = .ok p) targets named ∧
      report.summary.total = 7 ∧ report.summary.objectsWithFindings = 2 ∧
      report.exitCode = 1 ∧
      ∀ t, (CommandLine.outcomeOf ((Session.compare newYear strict nightly targets false
        (some "report.json")).run.run t)).exitCode = 1 := by
  intro named targets report
  have hnamed : List.Forall₂ (fun target p ↦ qualify target strict.owner = .ok p) targets named :=
    by simp only [targets, named, List.forall₂_cons, List.forall₂_nil_left_iff]; decide +kernel
  obtain ⟨-, hrun, hreport⟩ := compare_accounts_for_targets newYear strict nightly targets false
    (some "report.json") named (.inr (by decide)) hnamed
  obtain ⟨htotal, hobjects, hexit, -⟩ := hreport "2026-01-01T00:00:00+00:00"
  have hstatus : (if ∃ f ∈ report.findings, f.severity = .error then 1 else 0) = 1 := by
    decide +kernel
  refine ⟨hnamed, htotal.trans (by decide +kernel), hobjects.trans (by decide +kernel),
    hexit.trans hstatus, fun t ↦ ?_⟩
  obtain ⟨printed, hprinted⟩ := hrun t
  exact (congrArg Outcome.exitCode hprinted).trans hstatus

end Lineage
