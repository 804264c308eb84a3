import EffortRank.Cli.Run
import EffortRank.Proofs.Graph.Normalizing
import EffortRank.Proofs.Graph.Requests

/-!
# Tasks and inputs

A task on a host with a state gives a result, is refused, or is given up (`Gives`, `Refuses`).
Whether an input of a command can be read is told by what the host answers: a text, a JSON record, a
configuration, or a graph (`Host.Reads`, `Host.ReadsJson`, `Host.ReadsConfig`, `Host.ReadsGraph`,
and their counterparts for inputs that fail). The readers of the commands give and refuse just that.
-/

namespace EffortRank

namespace Cli

variable {σ α β : Type}

/-! ## Tasks -/

/-- What a task comes to in a state, with the state that it leaves. -/
def runFrom (t : Task (StateM σ) α) (s : σ) : Except (Halt Failure) α × σ := (ExceptT.run t).run s

/-- The task has the result `x` and leads from the state `s` to `s'`. -/
def Gives (t : Task (StateM σ) α) (s : σ) (x : α) (s' : σ) : Prop := runFrom t s = (.ok x, s')

/-- The task is refused in the state, with the failure. -/
def Refuses (t : Task (StateM σ) α) (s : σ) (f : Failure) : Prop :=
  ∃ s', runFrom t s = (.error (.refused f), s')

section

variable {t : Task (StateM σ) α} {next : α → Task (StateM σ) β} {s s' : σ} {f : Failure}

theorem runFrom_bind : runFrom (t >>= next) s =
    match runFrom t s with
    | (.ok x, s') => runFrom (next x) s'
    | (.error halt, s') => (.error halt, s') := by
  have hrun : runFrom (t >>= next) s =
      (ExceptT.bindCont next (runFrom t s).1 : StateM σ _).run (runFrom t s).2 := rfl
  rw [hrun]
  cases runFrom t s with
  | mk r s' => cases r <;> rfl

@[simp] theorem gives_bind_iff {y : β} : Gives (t >>= next) s y s' ↔
    ∃ x between, Gives t s x between ∧ Gives (next x) between y s' := by
  rw [Gives, runFrom_bind]
  unfold Gives
  cases runFrom t s with
  | mk r between => cases r <;> simp

/-- A task behind another is refused if the first is, or has a result and the second is. -/
@[simp] theorem refuses_bind_iff : Refuses (t >>= next) s f ↔
    Refuses t s f ∨ ∃ x between, Gives t s x between ∧ Refuses (next x) between f := by
  unfold Refuses Gives
  rw [runFrom_bind]
  cases runFrom t s with
  | mk r between => cases r <;> simp

@[simp] theorem gives_pure_iff {x y : α} :
    Gives (pure x : Task (StateM σ) α) s y s' ↔ x = y ∧ s = s' := by
  have hrun : runFrom (pure x : Task (StateM σ) α) s = (.ok x, s) := rfl
  rw [Gives, hrun, Prod.mk.injEq, Except.ok.injEq]

@[simp] theorem not_refuses_pure {x : α} : ¬ Refuses (pure x : Task (StateM σ) α) s f := by
  rintro ⟨s', h⟩
  cases h

@[simp] theorem refuses_map_iff {g : α → β} : Refuses (g <$> t) s f ↔ Refuses t s f := by
  rw [map_eq_pure_bind, refuses_bind_iff]
  simp

@[simp] theorem not_gives_fail {x : α} : ¬ Gives (fail f : Task (StateM σ) α) s x s' := by
  intro h
  cases h

@[simp] theorem refuses_fail_iff {g : Failure} :
    Refuses (fail g : Task (StateM σ) α) s f ↔ f = g := by
  constructor
  · rintro ⟨s', h⟩
    cases h
    rfl
  · rintro rfl
    exact ⟨s, rfl⟩

section

variable {ε : Type} {failure : ε → Failure}

@[simp] theorem gives_orHalt_iff {r : Except (Halt ε) α} {x : α} :
    Gives (orHalt failure r : Task (StateM σ) α) s x s' ↔ r = .ok x ∧ s = s' := by
  cases r with
  | ok y => exact gives_pure_iff.trans (by rw [Except.ok.injEq])
  | error halt => exact iff_of_false (fun h => nomatch h) fun h => nomatch h.1

@[simp] theorem refuses_orHalt_iff {r : Except (Halt ε) α} :
    Refuses (orHalt failure r : Task (StateM σ) α) s f ↔
      ∃ e, r = .error (.refused e) ∧ f = failure e := by
  cases r with
  | ok y => exact iff_of_false not_refuses_pure fun h => nomatch h
  | error halt =>
    cases halt with
    | refused e =>
      refine (refuses_fail_iff (g := failure e)).trans ⟨fun h => ⟨e, rfl, h⟩, ?_⟩
      rintro ⟨e', h, rfl⟩
      cases h
      rfl
    | overflow =>
      refine iff_of_false ?_ fun h => nomatch h
      rintro ⟨s', h⟩
      cases h

@[simp] theorem gives_orFail_iff {r : Except ε α} {x : α} :
    Gives (orFail failure r : Task (StateM σ) α) s x s' ↔ r = .ok x ∧ s = s' :=
  gives_orHalt_iff.trans (and_congr_left' Halt.ofChecked_eq_ok_iff)

@[simp] theorem refuses_orFail_iff {r : Except ε α} :
    Refuses (orFail failure r : Task (StateM σ) α) s f ↔ ∃ e, r = .error e ∧ f = failure e := by
  refine refuses_orHalt_iff.trans (exists_congr fun e => and_congr_left' ?_)
  cases r <;> simp [Halt.ofChecked, Except.mapError]

theorem refuses_orHalt_bind_iff {r : Except (Halt ε) α} :
    Refuses (orHalt failure r >>= next) s f ↔
      (∃ e, r = .error (.refused e) ∧ f = failure e) ∨ ∃ x, r = .ok x ∧ Refuses (next x) s f := by
  simp

theorem refuses_orFail_bind_iff {r : Except ε α} :
    Refuses (orFail failure r >>= next) s f ↔
      (∃ e, r = .error e ∧ f = failure e) ∨ ∃ x, r = .ok x ∧ Refuses (next x) s f := by
  simp

@[simp] theorem gives_orOverflow_iff {r : Option α} {x : α} :
    Gives (orOverflow r : Task (StateM σ) α) s x s' ↔ r = some x ∧ s = s' :=
  gives_orHalt_iff.trans (and_congr_left' Halt.ofFitting_eq_ok_iff)

@[simp] theorem not_refuses_orOverflow {r : Option α} :
    ¬ Refuses (orOverflow r : Task (StateM σ) α) s f := by
  intro h
  obtain ⟨e, hr, -⟩ := refuses_orHalt_iff.1 h
  cases r <;> cases hr

end

end

/-! ## Inputs -/

/-- The text is no JSON of a graph, or of one that names a commit or a function which it does not
list; the functions in front of the first such name have sums that fit. -/
def IsUnsound (text : String) : GraphTextError → Prop
  | .malformed reason => Json.decodeText GraphData.decode text = .error reason
  | .badlyLinked e => ∃ data, Json.decodeText GraphData.decode text = .ok data ∧
    data.offence? = some e ∧ JoinsFit data.soundNodes

namespace Host

variable (host : Host (StateM σ))

/-- The answer of the host for a file. -/
def file (path : String) (s : σ) : Except FileError String × σ := (host.readFile path).run s

/-- The answer of the host for an input: a file, or the standard input under a dash. -/
def input (path : String) (s : σ) : Except FileError String × σ :=
  if (PathName.ofText path).isDash then host.readInput.run s else host.file path s

/-- Whether there is a configuration in the working directory. -/
def configured (s : σ) : Bool × σ := (host.fileExists configFileName).run s

/-- The input can be read, which leads from the state `s` to `s'`. -/
def Reads (path : String) (s : σ) (text : String) (s' : σ) : Prop :=
  host.input path s = (.ok text, s')

/-- The input cannot be read. -/
def Unreadable (path : String) (s : σ) (f : Failure) : Prop :=
  ∃ e s', host.input path s = (.error e, s') ∧
    f = if (PathName.ofText path).isDash then .unreadableInput e else .unreadable path e

section

variable (decode : Json.Node → Except Json.Fault α)

def ReadsJson (path : String) (s : σ) (x : α) (s' : σ) : Prop :=
  ∃ text, host.Reads path s text s' ∧ Json.decodeText decode text = .ok x

/-- The input cannot be read, or is no JSON of its kind. -/
def RefusesJson (path : String) (s : σ) (f : Failure) : Prop :=
  host.Unreadable path s f ∨ ∃ text s' reason, host.Reads path s text s' ∧
    Json.decodeText decode text = .error reason ∧ f = .malformed path reason

end

def ReadsConfigFile (path : String) (s : σ) (c : Config) (s' : σ) : Prop :=
  ∃ text, host.file path s = (.ok text, s') ∧ Config.ofText text = .ok c

/-- The configuration is missing, cannot be read, or makes no sense. -/
def RefusesConfigFile (path : String) (s : σ) (f : Failure) : Prop :=
  (∃ s', host.file path s = (.error .missing, s') ∧ f = .config path (.notFound path)) ∨
  (∃ e s', host.file path s = (.error e, s') ∧ e ≠ .missing ∧
    f = .config path (.unreadable s!"{path}: {e.message}")) ∨
  ∃ text s' e, host.file path s = (.ok text, s') ∧ Config.ofText text = .error e ∧
    f = .config path e

/-- The configuration that is named, or the one in the working directory, or the defaults. -/
def ReadsConfig (named : Option String) (s : σ) (c : Config) (s' : σ) : Prop :=
  match named with
  | some path => host.ReadsConfigFile path s c s'
  | none =>
    (∃ between, host.configured s = (true, between) ∧
      host.ReadsConfigFile configFileName between c s') ∨
    host.configured s = (false, s') ∧ c = .default

def RefusesConfig (named : Option String) (s : σ) (f : Failure) : Prop :=
  match named with
  | some path => host.RefusesConfigFile path s f
  | none => ∃ between, host.configured s = (true, between) ∧
    host.RefusesConfigFile configFileName between f

def ReadsGraph (path : String) (s : σ) (g : CallGraph) (s' : σ) : Prop :=
  ∃ text data, host.Reads path s text s' ∧ Json.decodeText GraphData.decode text = .ok data ∧
    CallGraph.ofData data = .ok g

/-- The graph cannot be read, or its text holds no sound graph. -/
def RefusesGraph (path : String) (s : σ) (f : Failure) : Prop :=
  host.Unreadable path s f ∨
    ∃ text s' e, host.Reads path s text s' ∧ IsUnsound text e ∧ f = .graph path e

end Host

/-! ## Readers -/

section

variable {host : Host (StateM σ)} {path : String} {s s' : σ} {f : Failure}

theorem gives_lift_bind_iff {a : StateM σ β} {next : β → Task (StateM σ) α} {x : α} :
    Gives (liftM a >>= next) s x s' ↔ Gives (next (a.run s).1) (a.run s).2 x s' := Iff.rfl

theorem refuses_lift_bind_iff {a : StateM σ β} {next : β → Task (StateM σ) α} :
    Refuses (liftM a >>= next) s f ↔ Refuses (next (a.run s).1) (a.run s).2 f := Iff.rfl

@[simp] theorem gives_readText_iff {text : String} :
    Gives (readText host path) s text s' ↔ host.Reads path s text s' := by
  unfold readText Host.Reads Host.input Host.file
  split
  · rw [gives_lift_bind_iff]
    rcases host.readInput.run s with ⟨e | text, s'⟩
    · simp
    · simp
  · rw [gives_lift_bind_iff]
    rcases (host.readFile path).run s with ⟨e | text, s'⟩
    · simp
    · simp

@[simp] theorem refuses_readText_iff :
    Refuses (readText host path) s f ↔ host.Unreadable path s f := by
  unfold readText Host.Unreadable Host.input Host.file
  split
  · rw [refuses_lift_bind_iff]
    rcases host.readInput.run s with ⟨e | text, s'⟩
    · simp
    · simp
  · rw [refuses_lift_bind_iff]
    rcases (host.readFile path).run s with ⟨e | text, s'⟩
    · simp
    · simp

section

variable {decode : Json.Node → Except Json.Fault α}

theorem readJson_eq : readJson host decode path =
    readText host path >>= fun text => orFail (.malformed path) (Json.decodeText decode text) := by
  refine bind_congr fun text => ?_
  cases Json.decodeText decode text <;> rfl

@[simp] theorem gives_readJson_iff {x : α} :
    Gives (readJson host decode path) s x s' ↔ host.ReadsJson decode path s x s' := by
  simp [readJson_eq, Host.ReadsJson]

@[simp] theorem refuses_readJson_iff :
    Refuses (readJson host decode path) s f ↔ host.RefusesJson decode path s f := by
  simp [readJson_eq, Host.RefusesJson]

end

@[simp] theorem gives_readConfig_iff {c : Config} :
    Gives (readConfig host path) s c s' ↔ host.ReadsConfigFile path s c s' := by
  unfold readConfig Host.ReadsConfigFile Host.file
  rw [gives_lift_bind_iff]
  rcases (host.readFile path).run s with ⟨e | text, s'⟩
  · cases e <;> simp
  · cases hread : Config.ofText text <;> simp [hread, and_comm]

@[simp] theorem refuses_readConfig_iff :
    Refuses (readConfig host path) s f ↔ host.RefusesConfigFile path s f := by
  unfold readConfig Host.RefusesConfigFile Host.file
  rw [refuses_lift_bind_iff]
  rcases (host.readFile path).run s with ⟨e | text, s'⟩
  · cases e <;> simp
  · cases hread : Config.ofText text <;> simp [hread]

@[simp] theorem gives_loadConfig_iff {named : Option String} {c : Config} :
    Gives (loadConfig host named) s c s' ↔ host.ReadsConfig named s c s' := by
  cases named with
  | some path => exact gives_readConfig_iff
  | none =>
    unfold loadConfig Host.ReadsConfig Host.configured
    rw [gives_lift_bind_iff]
    rcases (host.fileExists configFileName).run s with ⟨_ | _, between⟩
    · simp [and_comm, eq_comm]
    · simp

@[simp] theorem refuses_loadConfig_iff {named : Option String} :
    Refuses (loadConfig host named) s f ↔ host.RefusesConfig named s f := by
  cases named with
  | some path => exact refuses_readConfig_iff
  | none =>
    unfold loadConfig Host.RefusesConfig Host.configured
    rw [refuses_lift_bind_iff]
    rcases (host.fileExists configFileName).run s with ⟨_ | _, between⟩
    · simp
    · simp

theorem ofText_eq_ok_iff {text : String} {g : CallGraph} : CallGraph.ofText text = .ok g ↔
    ∃ data, Json.decodeText GraphData.decode text = .ok data ∧ CallGraph.ofData data = .ok g := by
  unfold CallGraph.ofText
  cases Json.decodeText GraphData.decode text with
  | error reason => simp
  | ok data => simp [mapError_eq_ok_iff]

theorem ofText_eq_refused_iff {text : String} {e : GraphTextError} :
    CallGraph.ofText text = .error (.refused e) ↔ IsUnsound text e := by
  unfold CallGraph.ofText
  cases hdecode : Json.decodeText GraphData.decode text with
  | error reason => cases e <;> simp [IsUnsound, hdecode]
  | ok data =>
    obtain ⟨hfit, ⟨offence, hoffence, hdata⟩ | ⟨hnone, g, hdata, -⟩⟩ | ⟨hfit, hdata⟩ :=
      CallGraph.ofData_cases data
    · cases e <;> simp [IsUnsound, hdecode, hdata, hoffence, hfit, Except.mapError, Halt.map]
    · cases e <;> simp [IsUnsound, hdecode, hdata, hnone, Except.mapError]
    · cases e <;> simp [IsUnsound, hdecode, hdata, hfit, Except.mapError, Halt.map]

/-- A store is built from a text as a graph is. -/
theorem storeOfText_cases (text : String) :
    (∃ store, GraphStore.ofText text = .ok store ∧ store.Sound ∧
        CallGraph.ofText text = .ok store.graph) ∨
      ∃ halt, GraphStore.ofText text = .error halt ∧ CallGraph.ofText text = .error halt := by
  unfold GraphStore.ofText CallGraph.ofText
  cases Json.decodeText GraphData.decode text with
  | error reason => exact .inr ⟨_, rfl, rfl⟩
  | ok data =>
    dsimp only
    rcases GraphStore.ofData_cases data with ⟨store, hstore, hsound, hdata⟩ | ⟨halt, hstore, hdata⟩
    · rw [hstore, hdata]
      exact .inl ⟨store, rfl, hsound, rfl⟩
    · rw [hstore, hdata]
      exact .inr ⟨_, rfl, rfl⟩

/-- What follows on reading a graph has a sound store to work on, which shows the graph. -/
theorem exists_gives_readGraph_iff {q : GraphStore → σ → Prop} {p : CallGraph → σ → Prop}
    (h : ∀ store s', store.Sound → (q store s' ↔ p store.graph s')) :
    (∃ store s', Gives (readGraph host path) s store s' ∧ q store s') ↔
      ∃ g s', host.ReadsGraph path s g s' ∧ p g s' := by
  simp only [readGraph, gives_bind_iff, gives_readText_iff, gives_orHalt_iff]
  constructor
  · rintro ⟨store, s', ⟨text, between, hreads, hstore, rfl⟩, hq⟩
    rcases storeOfText_cases text with ⟨store', hstore', hsound, hgraph⟩ | ⟨halt, hstore', -⟩
    · obtain rfl := Except.ok.inj (hstore.symm.trans hstore')
      obtain ⟨data, hdecode, hdata⟩ := ofText_eq_ok_iff.1 hgraph
      exact ⟨store.graph, between, ⟨text, data, hreads, hdecode, hdata⟩, (h _ _ hsound).1 hq⟩
    · rw [hstore] at hstore'
      cases hstore'
  · rintro ⟨g, s', ⟨text, data, hreads, hdecode, hdata⟩, hp⟩
    have hgraph := ofText_eq_ok_iff.2 ⟨data, hdecode, hdata⟩
    rcases storeOfText_cases text with ⟨store, hstore, hsound, hgraph'⟩ | ⟨halt, -, hgraph'⟩
    · obtain rfl := Except.ok.inj (hgraph.symm.trans hgraph')
      exact ⟨store, s', ⟨text, s', hreads, hstore, rfl⟩, (h _ _ hsound).2 hp⟩
    · rw [hgraph] at hgraph'
      cases hgraph'

@[simp] theorem refuses_readGraph_iff :
    Refuses (readGraph host path) s f ↔ host.RefusesGraph path s f := by
  have hrefused : ∀ text e, GraphStore.ofText text = .error (.refused e) ↔ IsUnsound text e := by
    intro text e
    rw [← ofText_eq_refused_iff]
    rcases storeOfText_cases text with ⟨store, hstore, -, hgraph⟩ | ⟨halt, hstore, hgraph⟩
    · simp [hstore, hgraph]
    · rw [hstore, hgraph, Except.error.injEq, Except.error.injEq]
  simp [readGraph, hrefused, Host.RefusesGraph]

end

end Cli

end EffortRank
