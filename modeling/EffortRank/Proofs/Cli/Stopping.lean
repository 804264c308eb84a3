import EffortRank.Cli.Directory
import EffortRank.Proofs.Cli.ExitCodes
import EffortRank.Proofs.Cli.Reading
import EffortRank.Proofs.Replay.Store

/-!
# Why commands stop

A command goes through its inputs in a fixed order, and stops at the first thing that is wrong with
them (`Host.Stops`). It is refused for no other reason (`refuses_runCommand_iff`). So the exit code
of a run that fails is that of the failure. Main statement: `exitCode_outcome_iff`.
-/

namespace EffortRank

namespace Cli

variable {σ : Type}

namespace Host

variable (host : Host (StateM σ))

/-! ## What commands read -/

def ReadsPatch (path : String) (s : σ) (d : FileDiff) (s' : σ) : Prop :=
  ∃ text, host.Reads path s text s' ∧ readPatch? text.toList = some d

/-- The change to invert is read, from a patch or from its record. -/
def ReadsChange (input : String) (patch : Bool) (s : σ) (d : FileDiff) (s' : σ) : Prop :=
  if patch then host.ReadsPatch input s d s' else host.ReadsJson FileDiff.decode input s d s'

def RefusesChange (input : String) (patch : Bool) (s : σ) (f : Failure) : Prop :=
  if patch then host.Unreadable input s f else host.RefusesJson FileDiff.decode input s f

/-- The graph to start a replay with is read, or the empty one is taken. -/
def ReadsStart (graph : Option String) (s : σ) (g : CallGraph) (s' : σ) : Prop :=
  match graph with
  | some path => host.ReadsGraph path s g s'
  | none => g = .empty ∧ s' = s

def RefusesStart (graph : Option String) (s : σ) (f : Failure) : Prop :=
  ∃ path, graph = some path ∧ host.RefusesGraph path s f

/-- A text is written, or shown if no file for it is named. -/
def RefusesOutput (output : Option String) (text : String) (s : σ) (f : Failure) : Prop :=
  ∃ path e, output = some path ∧ ((host.writeFile path text).run s).1 = .error e ∧
    f = .unwritable path e

end Host

/-- The filter of a configuration, or the one that takes every file. -/
def filterOf? (config : Config) (allFiles : Bool) : Except PatternError FileFilter :=
  if allFiles then .ok .all else FileFilter.ofConfig config.filter

def decodeFunctions : Json.Node → Except Json.Fault (List FunctionRange) :=
  Json.asList FunctionRange.decode

def decodeHistory : Json.Node → Except Json.Fault (List CommitStep) :=
  Json.asList CommitStep.decode

def decodeLabels : Json.Node → Except Json.Fault (NameMap (List Float)) :=
  Json.asMap (Json.asList (Json.asDouble Json.Numeral.scaled?))

/-! ## Where commands stop -/

namespace Host

variable (host : Host (StateM σ))

/-- The change cannot be read, or is out of order. -/
def InversionStops (input : String) (patch : Bool) (s : σ) (f : Failure) : Prop :=
  host.RefusesChange input patch s f ∨
  ∃ d s₁, host.ReadsChange input patch s d s₁ ∧ ∃ e, d.check = .error e ∧ f = .order input e

/-- The patch or the functions cannot be read; or one of them is out of order, the patch being
checked first; or one of the sources cannot be read. -/
def AttributionStops (patch functions : String) (sources : Option (String × String)) (s : σ)
    (f : Failure) : Prop :=
  host.Unreadable patch s f ∨
  ∃ d s₁, host.ReadsPatch patch s d s₁ ∧
    (host.RefusesJson decodeFunctions functions s₁ f ∨
    ∃ ranges s₂, host.ReadsJson decodeFunctions functions s₁ ranges s₂ ∧
      ((∃ e, d.check = .error e ∧ f = .order patch e) ∨
      d.check = .ok () ∧
        ((∃ e, checkFunctions ranges = .error e ∧ f = .order functions e) ∨
        checkFunctions ranges = .ok () ∧ ∃ old new, sources = some (old, new) ∧
          (host.Unreadable old s₂ f ∨
          ∃ text s₃, host.Reads old s₂ text s₃ ∧ host.Unreadable new s₃ f))))

/-- The configuration, the history or the graph to start with cannot be read; or the replay is
refused; or the graph cannot be written. -/
def ReplayStops (history : String) (output graph config : Option String) (allFiles : Bool) (s : σ)
    (f : Failure) : Prop :=
  host.RefusesConfig config s f ∨
  ∃ settings s₁, host.ReadsConfig config s settings s₁ ∧
    (host.RefusesJson decodeHistory history s₁ f ∨
    ∃ commits s₂, host.ReadsJson decodeHistory history s₁ commits s₂ ∧
      ((∃ e, filterOf? settings allFiles = .error e ∧ f = .filter e) ∨
      ∃ filter, filterOf? settings allFiles = .ok filter ∧
        (host.RefusesStart graph s₂ f ∨
        ∃ start s₃, host.ReadsStart graph s₂ start s₃ ∧
          ((∃ e, (start.replay filter commits).2 = .error (.refused e) ∧ f = .replay e) ∨
          ∃ stats, (start.replay filter commits).2 = .ok stats ∧
            host.RefusesOutput output (start.replay filter commits).1.toText s₃ f))))

/-- The configuration, the graph or the labels cannot be read, or the labels do not fit the
graph. -/
def AnalysisStops (graph : String) (config labels : Option String) (s : σ) (f : Failure) : Prop :=
  host.RefusesConfig config s f ∨
  ∃ settings s₁, host.ReadsConfig config s settings s₁ ∧
    (host.RefusesGraph graph s₁ f ∨
    ∃ g s₂, host.ReadsGraph graph s₁ g s₂ ∧
      ∃ r path, g.report? settings = some r ∧ labels = some path ∧
        (host.RefusesJson decodeLabels path s₂ f ∨
        ∃ probabilities s₃, host.ReadsJson decodeLabels path s₂ probabilities s₃ ∧
          ∃ e, r.overallScores probabilities settings.scoring = .error e ∧ f = .labels e))

/-- The command stops in the state, for the first thing that is wrong. -/
def Stops : Command → σ → Failure → Prop
  | .hunks patch _, s, f => host.Unreadable patch s f
  | .parse patch, s, f => host.Unreadable patch s f
  | .invert input patch, s, f => host.InversionStops input patch s f
  | .attribution patch functions _ sources, s, f =>
    host.AttributionStops patch functions sources s f
  | .replay history output graph config allFiles, s, f =>
    host.ReplayStops history output graph config allFiles s f
  | .analyze graph _ config labels _, s, f => host.AnalysisStops graph config labels s f

end Host

section

variable {host : Host (StateM σ)} {s s' : σ} {f : Failure}

theorem refuses_patch_bind_iff {α : Type} {path : String} {next : FileDiff → Task (StateM σ) α} :
    Refuses (readText host path >>= fun text => orOverflow (readPatch? text.toList) >>= next) s f ↔
      host.Unreadable path s f ∨ ∃ d s', host.ReadsPatch path s d s' ∧ Refuses (next d) s' f := by
  simp only [refuses_bind_iff, refuses_readText_iff, gives_readText_iff, not_refuses_orOverflow,
    gives_orOverflow_iff, false_or, Host.ReadsPatch]
  refine or_congr_right ⟨?_, ?_⟩
  · rintro ⟨text, between, hreads, d, _, ⟨hd, rfl⟩, hnext⟩
    exact ⟨d, between, ⟨text, hreads, hd⟩, hnext⟩
  · rintro ⟨d, between, ⟨text, hreads, hd⟩, hnext⟩
    exact ⟨text, between, hreads, d, between, ⟨hd, rfl⟩, hnext⟩

theorem refuses_runHunks_iff {patch : String} {full : Bool} :
    Refuses (runHunks host patch full) s f ↔ host.Unreadable patch s f := by
  unfold runHunks
  cases full <;> simp

theorem refuses_runParse_iff {patch : String} :
    Refuses (runParse host patch) s f ↔ host.Unreadable patch s f := by
  simp [runParse]

theorem refuses_runInvert_iff {input : String} {patch : Bool} :
    Refuses (runInvert host input patch) s f ↔ host.InversionStops input patch s f := by
  unfold runInvert Host.InversionStops Host.RefusesChange Host.ReadsChange
  cases patch with
  | true =>
    rw [if_pos rfl, refuses_patch_bind_iff]
    simp
  | false => simp

theorem refuses_runAttribution_iff {patch functions : String} {stats : Bool}
    {sources : Option (String × String)} :
    Refuses (runAttribution host patch functions stats sources) s f ↔
      host.AttributionStops patch functions sources s f := by
  unfold runAttribution Host.AttributionStops decodeFunctions
  rw [refuses_patch_bind_iff]
  rcases sources with _ | ⟨old, new⟩
  · cases stats <;> simp [Unique.exists_iff]
  · simp [Unique.exists_iff]

theorem filterOf_eq {config : Config} {allFiles : Bool} :
    (filterOf config allFiles : Task (StateM σ) FileFilter) =
      orFail .filter (filterOf? config allFiles) := by
  cases allFiles <;> rfl

theorem refuses_readStart_iff {graph : Option String} :
    Refuses (readStart host graph) s f ↔ host.RefusesStart graph s f := by
  unfold readStart Host.RefusesStart
  cases graph <;> simp

/-- What follows on the start of a replay has a sound store to work on, which shows the graph. -/
theorem exists_gives_readStart_iff {graph : Option String} {q : GraphStore → σ → Prop}
    {p : CallGraph → σ → Prop} (h : ∀ store s', store.Sound → (q store s' ↔ p store.graph s')) :
    (∃ store s', Gives (readStart host graph) s store s' ∧ q store s') ↔
      ∃ g s', host.ReadsStart graph s g s' ∧ p g s' := by
  cases graph with
  | some path => exact exists_gives_readGraph_iff h
  | none =>
    have hempty := h .empty s .empty
    simp [readStart, Host.ReadsStart, GraphStore.graph_empty, hempty, and_assoc]

theorem refuses_write_bind_iff {path text : String} {printed : Printed} :
    Refuses (liftM (host.writeFile path text) >>= fun r => match r with
      | .error e => fail (.unwritable path e)
      | .ok () => pure printed) s f ↔ host.RefusesOutput (some path) text s f := by
  rw [refuses_lift_bind_iff, Host.RefusesOutput]
  cases hwrite : ((host.writeFile path text).run s).1 <;> simp [hwrite]

theorem refuses_runReplay_iff {history : String} {output graph config : Option String}
    {allFiles : Bool} :
    Refuses (runReplay host history output graph config allFiles) s f ↔
      host.ReplayStops history output graph config allFiles s f := by
  unfold runReplay Host.ReplayStops
  -- the stages in their order: configuration, history, filter, start, replay, output
  refine refuses_bind_iff.trans (or_congr refuses_loadConfig_iff (exists₂_congr fun settings s₁ =>
    and_congr gives_loadConfig_iff ?_))
  refine refuses_bind_iff.trans (or_congr refuses_readJson_iff (exists₂_congr fun commits s₂ =>
    and_congr gives_readJson_iff ?_))
  rw [filterOf_eq, refuses_orFail_bind_iff]
  refine or_congr_right (exists_congr fun filter => and_congr_right fun _ => ?_)
  refine refuses_bind_iff.trans (or_congr refuses_readStart_iff
    (exists_gives_readStart_iff fun store s₃ hsound => ?_))
  have hfollows := GraphStore.follows_replay hsound filter commits
  refine refuses_orHalt_bind_iff.trans ?_
  unfold GraphStore.Step.outcome
  generalize (GraphStore.replay filter commits).run store = r, store.graph.replay filter commits = q
    at hfollows
  cases hfollows with
  | done =>
    simp only [reduceCtorEq, false_and, exists_false, false_or, Except.ok.injEq, exists_eq_left']
    cases output with
    | none => exact iff_of_false not_refuses_pure fun h => nomatch h
    | some path => exact refuses_write_bind_iff
  | refused => simp
  | overflow => simp

theorem refuses_runAnalysis_iff {graph : String} {format : Format} {config labels : Option String}
    {limit : Nat} :
    Refuses (runAnalysis host graph format config labels limit) s f ↔
      host.AnalysisStops graph config labels s f := by
  unfold runAnalysis Host.AnalysisStops decodeLabels
  refine refuses_bind_iff.trans (or_congr refuses_loadConfig_iff (exists₂_congr fun settings s₁ =>
    and_congr gives_loadConfig_iff ?_))
  refine refuses_bind_iff.trans (or_congr refuses_readGraph_iff
    (exists_gives_readGraph_iff fun store s₂ _ => ?_))
  cases format <;> cases labels <;> simp [readLabels]

/-- **A command is refused where it stops**, and for no other reason. -/
theorem refuses_runCommand_iff {command : Command} :
    Refuses (runCommand host command) s f ↔ host.Stops command s f := by
  cases command with
  | hunks patch full => exact refuses_runHunks_iff
  | parse patch => exact refuses_runParse_iff
  | invert input patch => exact refuses_runInvert_iff
  | attribution patch functions stats sources => exact refuses_runAttribution_iff
  | replay history output graph config allFiles => exact refuses_runReplay_iff
  | analyze graph format config labels limit => exact refuses_runAnalysis_iff

end

/-! ## Runs -/

namespace Host

variable (host : Host (StateM σ))

/-- The configuration that the environment names. -/
def environment (s : σ) : Option String × σ := (host.lookupVariable configVariable).run s

/-- What a run of the program comes to. -/
def outcome (args : List String) (s : σ) : Outcome := ((run host args).run s).1

/-- A run of the program fails: its command line names a command, which stops. -/
def Fails (args : List String) (s : σ) (f : Failure) : Prop :=
  ∃ command, parseArguments (host.environment s).1 .empty args = .ok command ∧
    host.Stops command (host.environment s).2 f

end Host

section

variable {host : Host (StateM σ)} {args : List String} {s : σ} {f : Failure}

theorem fst_run_bind {α β : Type} {a : StateM σ α} {next : α → StateM σ β} :
    ((a >>= next).run s).1 = ((next (a.run s).1).run (a.run s).2).1 := rfl

theorem exitCode_of_stop {stop : Stop}
    (h : parseArguments (host.environment s).1 .empty args = .error stop) :
    (host.outcome args s).exitCode ∈ [0, 2] := by
  unfold Host.environment at h
  unfold Host.outcome run
  rw [fst_run_bind, h]
  cases stop with
  | usage => exact .tail _ (.head _)
  | help => exact .head _
  | version => exact .head _

theorem exitCode_of_command {command : Command}
    (h : parseArguments (host.environment s).1 .empty args = .ok command) :
    (host.outcome args s).exitCode =
      match (runFrom (runCommand host command) (host.environment s).2).1 with
      | .ok _ => 0
      | .error (.refused failure) => failure.exitCode
      | .error .overflow => 101 := by
  unfold Host.environment at h ⊢
  unfold Host.outcome run runFrom
  rw [fst_run_bind, h]
  refine (congrArg Outcome.exitCode fst_run_bind).trans ?_
  cases ((runCommand host command).run.run ((host.lookupVariable configVariable).run s).2).1 with
  | ok printed => rfl
  | error halt => cases halt <;> rfl

/-- A run that fails has the exit code of the failure. -/
theorem exitCode_of_fails (h : host.Fails args s f) :
    (host.outcome args s).exitCode = f.exitCode := by
  obtain ⟨command, hcommand, hstops⟩ := h
  obtain ⟨s', hrun⟩ := refuses_runCommand_iff.2 hstops
  rw [exitCode_of_command hcommand, hrun]

/-- The other runs have the codes of success, of a command line that is not understood, and of one
that is given up. -/
theorem exitCode_of_not_fails (h : ∀ f, ¬ host.Fails args s f) :
    (host.outcome args s).exitCode ∈ [0, 2, 101] := by
  cases hcommand : parseArguments (host.environment s).1 .empty args with
  | error stop =>
    obtain hcode | hcode := List.mem_pair.1 (exitCode_of_stop hcommand) <;> simp [hcode]
  | ok command =>
    rw [exitCode_of_command hcommand]
    cases hrun : runFrom (runCommand host command) (host.environment s).2 with
    | mk result s' =>
      cases result with
      | ok printed => exact .head _
      | error halt =>
        cases halt with
        | refused f =>
          exact absurd ⟨command, hcommand, refuses_runCommand_iff.1 ⟨s', hrun⟩⟩ (h f)
        | overflow => exact .tail _ (.tail _ (.head _))

/-- **Exit codes tell the kinds of failures, but for markers in texts from outside.** A run that
fails has the code of the kind of its failure if and only if no path, name, hash or other text from
outside in its message has a marker of a code that is tried before: so it always does where an input
cannot be read. Two failures of one kind have one code if their texts from outside have the same of
these markers. The other runs succeed, or their command line is not understood, or they are given
up. -/
theorem exitCode_outcome_iff {σ : Type} (host : Host (StateM σ)) (args : List String) (s : σ) :
    (∀ f, host.Fails args s f →
      ((host.outcome args s).exitCode = f.kind.exitCode ↔
        ∀ marker ∈ markersBefore f.kind.exitCode, ∀ text ∈ f.outsideTexts,
          ¬ Mentions text marker) ∧
      ∀ (τ : Type) (other : Host (StateM τ)) (otherArgs : List String) (t : τ) (g : Failure),
        other.Fails otherArgs t g → g.kind = f.kind →
        (∀ marker ∈ markersBefore f.kind.exitCode,
          ((∃ text ∈ f.outsideTexts, Mentions text marker) ↔
            ∃ text ∈ g.outsideTexts, Mentions text marker)) →
        (other.outcome otherArgs t).exitCode = (host.outcome args s).exitCode) ∧
    ((∀ f, ¬ host.Fails args s f) → (host.outcome args s).exitCode ∈ [0, 2, 101]) := by
  refine ⟨fun f hf => ⟨?_, fun τ other otherArgs t g hg hkind hmarkers => ?_⟩,
    exitCode_of_not_fails⟩
  · rw [exitCode_of_fails hf, Failure.exitCode_eq_iff]
    simp [Failure.Repeats]
  · rw [exitCode_of_fails hf, exitCode_of_fails hg]
    exact (Failure.exitCode_congr hkind.symm hmarkers).symm

end

/-! ## A call of an unknown function -/

/-- A graph with a call between two functions that it does not list. -/
def oneCallText (caller : String) : String :=
  "\x7b\"edges\": [\x7b\"source\": \"" ++ caller ++ "\", \"target\": \"x\"\x7d]\x7d"

/-- A directory with this graph only. -/
def oneCall (caller : String) : Directory :=
  .ofFiles (.ofList [("g.json", oneCallText caller)]) "" .empty

theorem fails_oneCall {caller : String}
    (htext : (Directory.host.input "g.json" (oneCall caller)).1 = .ok (oneCallText caller))
    (hdecode : Json.decodeText GraphData.decode (oneCallText caller) =
      .ok ⟨[], [], [⟨caller, "x", none⟩]⟩)
    (hconfig : (Directory.host.configured (oneCall caller)).1 = false) :
    Directory.host.Fails ["analyze", "g.json"] (oneCall caller)
      (.graph "g.json" (.badlyLinked (.unknownNode caller))) := by
  have hcommand : parseArguments none .empty ["analyze", "g.json"] =
      .ok (.analyze "g.json" .json none none 10) := by decide
  have hnames : (GraphData.mk [] [] [⟨caller, "x", none⟩]).offence? =
      some (.unknownNode caller) := by
    simp [GraphData.offence?, GraphData.edgeOffence?, GraphData.names]
  refine ⟨_, hcommand, .inr ⟨_, oneCall caller, .inr ⟨Prod.ext hconfig rfl, rfl⟩, .inl (.inr ?_)⟩⟩
  exact ⟨_, _, .badlyLinked (.unknownNode caller), Prod.ext htext rfl,
    ⟨_, hdecode, hnames, joinsFit_nil⟩, rfl⟩

theorem exitCode_outcome_iff_unknown_function :
    let f := Failure.graph "g.json" (.badlyLinked (.unknownNode "a"))
    Directory.host.Fails ["analyze", "g.json"] (oneCall "a") f ∧ f.kind = .inconsistent ∧
      (Directory.host.outcome ["analyze", "g.json"] (oneCall "a")).exitCode = 5 := by
  have hfails : Directory.host.Fails ["analyze", "g.json"] (oneCall "a")
      (.graph "g.json" (.badlyLinked (.unknownNode "a"))) :=
    fails_oneCall (by decide +kernel) (by decide +kernel) (by decide +kernel)
  obtain ⟨hcode, -⟩ := (exitCode_outcome_iff Directory.host ["analyze", "g.json"] (oneCall "a")).1 _
    hfails
  refine ⟨hfails, rfl, hcode.2 ?_⟩
  decide +kernel

/-- Two failures of one kind that differ in the name of a function only, but not in one code: a name
may have a marker. -/
theorem exitCode_of_function_cannot_read :
    let f (caller : String) := Failure.graph "g.json" (.badlyLinked (.unknownNode caller))
    (∀ caller ∈ ["a", "cannot read"],
      Directory.host.Fails ["analyze", "g.json"] (oneCall caller) (f caller) ∧
        (f caller).kind = .inconsistent) ∧
      (Directory.host.outcome ["analyze", "g.json"] (oneCall "a")).exitCode = 5 ∧
      (Directory.host.outcome ["analyze", "g.json"] (oneCall "cannot read")).exitCode = 3 := by
  refine ⟨?_, by decide +kernel, by decide +kernel⟩
  rw [List.forall_mem_cons, List.forall_mem_singleton]
  exact ⟨⟨fails_oneCall (by decide +kernel) (by decide +kernel) (by decide +kernel), rfl⟩,
    fails_oneCall (by decide +kernel) (by decide +kernel) (by decide +kernel), rfl⟩

end Cli

end EffortRank
