import EffortRank.Proofs.Json.Fields
import EffortRank.Proofs.Time.InstantText
import EffortRank.Record.Replay

/-!
# Records are decoded to what was encoded

Each kind of record is read back from the value that it is written as, whichever of its fields were
left out. A value `Fits` if its counts and line numbers have 64 bits and its instants are such as
the program can hold, as is so for every value of the program.
-/

namespace EffortRank

open Json RecordParts

/-! ## Graphs -/

/-- Counts are read back; a missing one was left out. -/
theorem ChangeStats.decode_encode {s : ChangeStats} (h : s.fits = true) :
    decode s.encode.node = .ok s := by
  obtain ⟨adds, dels, added, removed⟩ := s
  simp only [fits, Bool.and_eq_true] at h
  obtain ⟨⟨⟨hadds, hdels⟩, hadded⟩, hremoved⟩ := h
  refine readRecord_fields ?_ (by decide) fun r hr => ?_
  · cases added <;> cases removed <;> rfl
  have h₁ : r.required "adds" asCount = .read adds := hr.required rfl (asCount_nat hadds)
  have h₂ : r.required "dels" asCount = .read dels := hr.required rfl (asCount_nat hdels)
  have h₃ : r.optional "added_units" asCount = .read added :=
    hr.count hadded (by cases added <;> cases removed <;> rfl)
  have h₄ : r.optional "removed_units" asCount = .read removed :=
    hr.count hremoved (by cases added <;> cases removed <;> rfl)
  rw [h₁, h₂, h₃, h₄]
  rfl

def CommitInfo.Fits (c : CommitInfo) : Prop := ∀ t ∈ c.committedAt, t.Fits

instance (c : CommitInfo) : Decidable c.Fits := inferInstanceAs (Decidable (∀ t ∈ c.committedAt, _))

theorem CommitInfo.decode_encode {c : CommitInfo} (h : c.Fits) : decode c.encode.node = .ok c := by
  obtain ⟨hash, authorName, authorEmail, message, committedAt⟩ := c
  refine readRecord_fields ?_ (by decide) fun r hr => ?_
  · cases committedAt <;> rfl
  have h₁ : r.required "hexsha" asText = .read hash := hr.required rfl rfl
  have h₂ : r.defaulted "author_name" "" asText = .read authorName := hr.defaulted rfl rfl
  have h₃ : r.defaulted "author_email" "" asText = .read authorEmail := hr.defaulted rfl rfl
  have h₄ : r.defaulted "message" "" asText = .read message := hr.defaulted rfl rfl
  have h₅ : r.optional "committed_at" decodeInstant = .read committedAt := by
    cases committedAt with
    | none => exact hr.missing rfl
    | some t =>
      have ht : decodeInstant (.str t.text) = .ok t := by
        rw [decodeInstant, Instant.parse?_text (h t rfl)]
      exact hr.nonNull (v := .str t.text) rfl Node.noConfusion ht
  rw [h₁, h₂, h₃, h₄, h₅]
  rfl

theorem NameSet.decode_encode (s : NameSet) : decode s.encode.node = .ok s := by
  have hkeys : asList asText s.encode.node = .ok s.keys := asList_list fun _ _ => rfl
  have hentries : s.keys.map (fun n => (n, ())) = s.entries := by
    rw [NameMap.keys, List.map_map]
    exact List.map_id _
  rw [decode, hkeys]
  show Except.ok (ofNames s.keys) = _
  rw [ofNames, hentries, NameMap.ofList_entries]

def FunctionNode.Fits (node : FunctionNode) : Prop := ∀ e ∈ node.history.entries, e.2.fits = true

instance (node : FunctionNode) : Decidable node.Fits :=
  inferInstanceAs (Decidable (∀ e ∈ node.history.entries, _))

/-- A function is read back; an empty history was left out. -/
theorem FunctionNode.decode_encode {node : FunctionNode} (h : node.Fits) :
    decode node.encode.node = .ok node := by
  obtain ⟨name, files, history⟩ := node
  have hmap : asMap ChangeStats.decode (history.encode ChangeStats.encode).node = .ok history :=
    asMap_entries fun e he => ChangeStats.decode_encode (h e he)
  refine readRecord_fields ?_ (by decide) fun r hr => ?_
  · cases history.isEmpty <;> rfl
  have h₁ : r.required "name" asText = .read name := hr.required rfl rfl
  have h₂ : r.defaulted "files" .empty NameSet.decode = .read files :=
    hr.defaulted rfl (NameSet.decode_encode files)
  have h₃ : r.defaulted "history" .empty (asMap ChangeStats.decode) = .read history := by
    obtain ⟨entries, hentries⟩ := history
    cases entries with
    | nil => exact hr.missing rfl
    | cons e es => exact hr.defaulted rfl hmap
  rw [h₁, h₂, h₃]
  rfl

theorem CallEdge.decode_encode (e : CallEdge) : decode e.encode.node = .ok e := by
  obtain ⟨caller, callee, addedBy⟩ := e
  refine readRecord_fields ?_ (by decide) fun r hr => ?_
  · cases addedBy <;> rfl
  have h₁ : r.required "source" asText = .read caller := hr.required rfl rfl
  have h₂ : r.required "target" asText = .read callee := hr.required rfl rfl
  have h₃ : r.optional "added_by" asText = .read addedBy := by
    cases addedBy with
    | none => exact hr.missing rfl
    | some hash => exact hr.nonNull (v := .str hash) rfl Node.noConfusion rfl
  rw [h₁, h₂, h₃]
  rfl

structure GraphData.Fits (d : GraphData) : Prop where
  commits : ∀ c ∈ d.commits, c.Fits
  nodes : ∀ node ∈ d.nodes, node.Fits

instance (d : GraphData) : Decidable d.Fits :=
  decidable_of_iff ((∀ c ∈ d.commits, c.Fits) ∧ ∀ node ∈ d.nodes, node.Fits)
    ⟨fun h => ⟨h.1, h.2⟩, fun h => ⟨h.commits, h.nodes⟩⟩

/-- **A saved graph is decoded to what was encoded.** -/
theorem GraphData.decode_encode {d : GraphData} (h : d.Fits) : decode d.encode.node = .ok d := by
  refine readRecord_fields rfl (by decide) fun r hr => ?_
  have h₁ : r.defaulted "commits" [] (asList CommitInfo.decode) = .read d.commits :=
    hr.defaulted rfl (asList_list fun c hc => CommitInfo.decode_encode (h.commits c hc))
  have h₂ : r.defaulted "nodes" [] (asList FunctionNode.decode) = .read d.nodes :=
    hr.defaulted rfl (asList_list fun node hnode => FunctionNode.decode_encode (h.nodes node hnode))
  have h₃ : r.defaulted "edges" [] (asList CallEdge.decode) = .read d.edges :=
    hr.defaulted rfl (asList_list fun e _ => CallEdge.decode_encode e)
  rw [h₁, h₂, h₃]
  rfl

/-! ## Histories -/

def LineRange.Fits (r : LineRange) : Prop := lineFits r.first = true ∧ lineFits r.last = true

instance (r : LineRange) : Decidable r.Fits := inferInstanceAs (Decidable (_ ∧ _))

theorem LineRange.decode_encode {r : LineRange} (h : r.Fits) : decode r.encode.node = .ok r := by
  refine readRecord_fields rfl (by decide) fun parts hparts => ?_
  have h₁ : parts.required "start" asLine = .read r.first := hparts.required rfl (asLine_int h.1)
  have h₂ : parts.required "end" asLine = .read r.last := hparts.required rfl (asLine_int h.2)
  rw [h₁, h₂]
  rfl

theorem FunctionRange.decode_encode {f : FunctionRange} (h : f.range.Fits) :
    decode f.encode.node = .ok f := by
  refine readRecord_fields rfl (by decide) fun r hr => ?_
  have h₁ : r.required "name" asText = .read f.name := hr.required rfl rfl
  have h₂ : r.required "range" LineRange.decode = .read f.range :=
    hr.required rfl (LineRange.decode_encode h)
  rw [h₁, h₂]
  rfl

theorem CallSite.decode_encode (c : CallSite) : decode c.encode.node = .ok c := by
  refine readRecord_fields rfl (by decide) fun r hr => ?_
  have h₁ : r.required "caller" asText = .read c.caller := hr.required rfl rfl
  have h₂ : r.required "callee" asText = .read c.callee := hr.required rfl rfl
  rw [h₁, h₂]
  rfl

structure FileChange.Fits (c : FileChange) : Prop where
  functions : ∀ f ∈ c.functions, f.range.Fits
  newFunctions : ∀ f ∈ c.newFunctions, f.range.Fits

instance (c : FileChange) : Decidable c.Fits :=
  decidable_of_iff ((∀ f ∈ c.functions, f.range.Fits) ∧ ∀ f ∈ c.newFunctions, f.range.Fits)
    ⟨fun h => ⟨h.1, h.2⟩, fun h => ⟨h.functions, h.newFunctions⟩⟩

/-- A change is read back; a missing path or source was written as null. -/
theorem FileChange.decode_encode {c : FileChange} (h : c.Fits) : decode c.encode.node = .ok c := by
  refine readRecord_fields rfl (by decide) fun r hr => ?_
  have h₁ : r.optional "old_path" asText = .read c.oldPath := hr.nullableText rfl
  have h₂ : r.optional "new_path" asText = .read c.newPath := hr.nullableText rfl
  have h₃ : r.defaulted "patch" "" asText = .read c.patch := hr.defaulted rfl rfl
  have h₄ : r.defaulted "functions" [] (asList FunctionRange.decode) = .read c.functions :=
    hr.defaulted rfl (asList_list fun f hf => FunctionRange.decode_encode (h.functions f hf))
  have h₅ : r.defaulted "new_functions" [] (asList FunctionRange.decode) = .read c.newFunctions :=
    hr.defaulted rfl (asList_list fun f hf => FunctionRange.decode_encode (h.newFunctions f hf))
  have h₆ : r.optional "old_source" asText = .read c.oldSource := hr.nullableText rfl
  have h₇ : r.optional "new_source" asText = .read c.newSource := hr.nullableText rfl
  have h₈ : r.defaulted "calls" [] (asList CallSite.decode) = .read c.calls :=
    hr.defaulted rfl (asList_list fun call _ => CallSite.decode_encode call)
  rw [h₁, h₂, h₃, h₄, h₅, h₆, h₇, h₈]
  rfl

theorem SeekingMode.decode_encode (m : SeekingMode) : decode m.encode.node = .ok m := by
  cases m <;> rfl

structure CommitStep.Fits (c : CommitStep) : Prop where
  info : c.info.Fits
  changes : ∀ change ∈ c.changes, change.Fits

instance (c : CommitStep) : Decidable c.Fits :=
  decidable_of_iff (c.info.Fits ∧ ∀ change ∈ c.changes, change.Fits)
    ⟨fun h => ⟨h.1, h.2⟩, fun h => ⟨h.info, h.changes⟩⟩

theorem CommitStep.decode_encode {c : CommitStep} (h : c.Fits) : decode c.encode.node = .ok c := by
  refine readRecord_fields rfl (by decide) fun r hr => ?_
  have h₁ : r.required "info" CommitInfo.decode = .read c.info :=
    hr.required rfl (CommitInfo.decode_encode h.info)
  have h₂ : r.defaulted "seeking_mode" .forward SeekingMode.decode = .read c.mode :=
    hr.defaulted rfl (SeekingMode.decode_encode c.mode)
  have h₃ : r.defaulted "changes" [] (asList FileChange.decode) = .read c.changes :=
    hr.defaulted rfl (asList_list fun change hc => FileChange.decode_encode (h.changes change hc))
  rw [h₁, h₂, h₃]
  rfl

/-- **A history is decoded to what was encoded.** -/
theorem decode_encode_history {history : List CommitStep} (h : ∀ c ∈ history, c.Fits) :
    asList CommitStep.decode (list CommitStep.encode history).node = .ok history :=
  asList_list fun c hc => CommitStep.decode_encode (h c hc)

end EffortRank
