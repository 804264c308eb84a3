import EffortRank.Proofs.Graph.Reloading
import EffortRank.Proofs.Json.Reading
import EffortRank.Proofs.Replay.Fitting

/-!
# Records are read back from their texts

No record holds a number with a fraction, so that its text is read as the value that was written,
and the value is decoded to the record. So a graph is loaded from its text as it was saved, and
saved again as the same text (`CallGraph.texts_decoded`).
-/

namespace EffortRank

open Json

namespace Json

/-! ## Plain values -/

theorem plain_nil : Plain (.obj []) := .obj fun _ he => by cases he

theorem Plain.field {name : String} {v : Json} {fields : List (String × Json)} (hv : Plain v)
    (h : Plain (.obj fields)) : Plain (.obj ((name, v) :: fields)) := by
  cases h with
  | obj hfields => exact .obj (List.forall_mem_cons.2 ⟨hv, hfields⟩)

theorem plain_list {α : Type} {f : α → Json} (h : ∀ x, Plain (f x)) (xs : List α) :
    Plain (list f xs) := by
  refine .arr fun v hv => ?_
  obtain ⟨x, -, rfl⟩ := List.mem_map.1 hv
  exact h x

theorem plain_optionStr (s : Option String) : Plain (option .str s) := by
  cases s with
  | none => exact .null
  | some s => exact .str s

end Json

theorem LineRange.plain_encode (r : LineRange) : Plain r.encode :=
  .field (.int _) (.field (.int _) plain_nil)

theorem FunctionRange.plain_encode (f : FunctionRange) : Plain f.encode :=
  .field (.str _) (.field f.range.plain_encode plain_nil)

theorem ChangeStats.plain_encode (s : ChangeStats) : Plain s.encode := by
  obtain ⟨adds, dels, added, removed⟩ := s
  cases added <;> cases removed <;> refine .field (.int _) (.field (.int _) ?_)
  · exact plain_nil
  · exact .field (.int _) plain_nil
  · exact .field (.int _) plain_nil
  · exact .field (.int _) (.field (.int _) plain_nil)

theorem CommitInfo.plain_encode (c : CommitInfo) : Plain c.encode := by
  obtain ⟨hash, authorName, authorEmail, message, committedAt⟩ := c
  cases committedAt with
  | none => exact .field (.str _) (.field (.str _) (.field (.str _) (.field (.str _) plain_nil)))
  | some t =>
    exact .field (.str _) (.field (.str _) (.field (.str _) (.field (.str _)
      (.field (.str _) plain_nil))))

theorem FunctionNode.plain_encode (node : FunctionNode) : Plain node.encode := by
  have hfiles : Plain (NameSet.encode node.files) := plain_list .str _
  have hhistory : Plain (node.history.encode ChangeStats.encode) := by
    refine .obj fun e he => ?_
    obtain ⟨entry, -, rfl⟩ := List.mem_map.1 he
    exact entry.2.plain_encode
  unfold encode
  split
  · exact .field (.str _) (.field hfiles plain_nil)
  · exact .field (.str _) (.field hfiles (.field hhistory plain_nil))

theorem CallEdge.plain_encode (e : CallEdge) : Plain e.encode := by
  obtain ⟨caller, callee, addedBy⟩ := e
  cases addedBy with
  | none => exact .field (.str _) (.field (.str _) plain_nil)
  | some hash => exact .field (.str _) (.field (.str _) (.field (.str _) plain_nil))

theorem GraphData.plain_encode (d : GraphData) : Plain d.encode :=
  .field (plain_list CommitInfo.plain_encode _) (.field (plain_list FunctionNode.plain_encode _)
    (.field (plain_list CallEdge.plain_encode _) plain_nil))

theorem CallSite.plain_encode (c : CallSite) : Plain c.encode :=
  .field (.str _) (.field (.str _) plain_nil)

theorem FileChange.plain_encode (c : FileChange) : Plain c.encode :=
  .field (plain_optionStr _) (.field (plain_optionStr _) (.field (.str _)
    (.field (plain_list FunctionRange.plain_encode _)
      (.field (plain_list FunctionRange.plain_encode _) (.field (plain_optionStr _)
        (.field (plain_optionStr _) (.field (plain_list CallSite.plain_encode _) plain_nil)))))))

theorem CommitStep.plain_encode (c : CommitStep) : Plain c.encode :=
  .field c.info.plain_encode (.field (.str _)
    (.field (plain_list FileChange.plain_encode _) plain_nil))

/-! ## Texts -/

namespace CallGraph

/-- A graph is loaded from its text as it was saved, but for the current commit. -/
theorem ofText_toText {g : CallGraph} (hg : g.WellFormed) (h : g.Fits) :
    ofText g.toText = .ok { g with current := none } := by
  have hread : decodeText GraphData.decode g.toText = .ok g.toData :=
    decodeText_pretty g.toData.plain_encode (GraphData.decode_encode h)
  rw [ofText, hread]
  dsimp only
  rw [ofData_toData hg]
  rfl

/-- **Records are decoded to what was encoded**, from the value and from either form of its text:
saved graphs and histories whose numbers are such as the program can hold. The numbers of a graph
are, if those of the requests and of the commits that lead to it are. So a graph is loaded from its
text as it was saved, and saved again as the same text. -/
theorem texts_decoded :
    (∀ data : GraphData, data.Fits → GraphData.decode data.encode.node = .ok data ∧
      decodeText GraphData.decode data.encode.pretty = .ok data ∧
        decodeText GraphData.decode data.encode.compact = .ok data) ∧
    (∀ history : List CommitStep, (∀ c ∈ history, c.Fits) →
      asList CommitStep.decode (list CommitStep.encode history).node = .ok history ∧
        historyOfText (list CommitStep.encode history).pretty = .ok history ∧
          historyOfText (list CommitStep.encode history).compact = .ok history) ∧
    (∀ requests : List GraphRequest, (∀ request ∈ requests, request.Fits) →
      (empty.run requests).Fits) ∧
    (∀ (g : CallGraph) (filter : FileFilter) (history : List CommitStep), g.Fits →
      (∀ c ∈ history, c.Fits) → (g.replay filter history).1.Fits) ∧
    ∀ g : CallGraph, g.Reachable → g.Fits →
      ∃ g', ofText g.toText = .ok g' ∧ g'.toData = g.toData ∧ g'.toText = g.toText := by
  refine ⟨fun data h => ?_, fun history h => ?_, fun requests h => fits_run h,
    fun g filter history hg h => hg.replay fun c hc => (h c hc).info, fun g hg h => ?_⟩
  · have hread := GraphData.decode_encode h
    exact ⟨hread, decodeText_pretty data.plain_encode hread,
      decodeText_compact data.plain_encode hread⟩
  · have hread := decode_encode_history h
    have hplain := plain_list CommitStep.plain_encode history
    exact ⟨hread, decodeText_pretty hplain hread, decodeText_compact hplain hread⟩
  · exact ⟨_, ofText_toText hg.wellFormed h, rfl, rfl⟩

/-- A commit in a leap second, with quotes and a control character in its texts, a count and a range
as large as they can be, and fields that are left out or null. -/
theorem texts_decoded_leap_second :
    let info : CommitInfo := ⟨"c", "a \"b\"", "", "x\\\u0001\n", some ⟨1483228799, 1500000000⟩⟩
    let requests : List GraphRequest := [.addCommit info, .addNode "f" ["b", "a"],
      .recordHistory "f" ⟨maxCount, 0, none, some 3⟩, .addNode "g" [], .addEdge "f" "g"]
    let change : FileChange := ⟨none, some "a", "", [⟨"f", ⟨-maxLineNumber - 1, maxLineNumber⟩⟩],
      [], some "", none, [⟨"f", "g"⟩]⟩
    let history : List CommitStep := [⟨info, .rewind, [change]⟩]
    let g := empty.run requests
    Instant.text ⟨1483228799, 1500000000⟩ = "2016-12-31T23:59:60.500Z" ∧
      GraphData.decode g.toData.encode.node = .ok g.toData ∧
        historyOfText (list CommitStep.encode history).pretty = .ok history ∧
          (g.replay .all history).1.Fits ∧
            ∃ g', ofText g.toText = .ok g' ∧ g'.toData = g.toData ∧ g'.toText = g.toText := by
  intro info requests change history g
  obtain ⟨hdata, hhistory, hrun, hreplay, hsaved⟩ := texts_decoded
  have hcommits : ∀ c ∈ history, c.Fits := by decide
  have hg : g.Fits := hrun requests (by decide)
  exact ⟨by decide, (hdata g.toData hg).1, (hhistory history hcommits).2.1,
    hreplay g .all history hg hcommits, hsaved g ⟨requests, rfl⟩ hg⟩

end CallGraph

end EffortRank
