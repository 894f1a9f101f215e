import EventChains.Proofs.Log
import EventChains.Proofs.Log.Pairs
import Mathlib.Data.List.Forall2

/-!
# White space in trace lines

White space before a key is skipped whatever it consists of, but a plain value ends at a space only
and takes all other white space before it. So the white space of a trace line can be exchanged
exactly as far as it starts with a space wherever it stands after a plain value
(`readLine_respaced`). A tab at the end of a line becomes part of a name
(`readLine_append_tab`).
-/

namespace EventChains.Log

open EventChains.Text

/-- The same pairs with other white space after them; where there was some, there is some again. -/
def Respaced (spaced others : List SpacedPair) : Prop :=
  List.Forall₂ (fun item other =>
    other.pair = item.pair ∧ Blanks other.gap ∧ (item.gap ≠ [] → other.gap ≠ [])) spaced others

/-- A line taken apart: `head` ends with the first marker, and white space and pairs follow. -/
structure LaidOut (line head lead : List Char) (spaced : List SpacedPair) : Prop where
  line_eq : line = head ++ (lead ++ writtenAll spaced)
  marked : afterMarker? line = some (lead ++ writtenAll spaced)
  lead_blanks : Blanks lead
  writable : ∀ item ∈ spaced, item.pair.Writable
  apart : Apart spaced

variable {spaced others : List SpacedPair} {line text head lead : List Char} {event : Event}

/-! ## The first marker -/

/-- What stands after the first marker has no bearing on where the first marker is. -/
theorem exists_head_of_afterMarker? (h : afterMarker? line = some text) :
    ∃ before, line = before ++ marker ++ text ∧
      ∀ other, afterMarker? (before ++ marker ++ other) = some other := by
  induction line with
  | nil => contradiction
  | cons c rest ih =>
      rw [afterMarker?] at h
      split at h
      · rename_i hmarker
        obtain ⟨after, hafter⟩ := List.isPrefixOf_iff_prefix.1 hmarker
        rw [← hafter, List.drop_left] at h
        cases h
        exact ⟨[], hafter.symm, fun other => rfl⟩
      · rename_i hmarker
        obtain ⟨before, rfl, hfirst⟩ := ih h
        refine ⟨c :: before, rfl, fun other => ?_⟩
        have hnot : ¬ marker.isPrefixOf (c :: (before ++ marker ++ other)) = true := by
          -- the marker is no longer than what stands before the text, so the text does not matter
          intro hprefix
          refine hmarker (List.isPrefixOf_iff_prefix.2 ?_)
          have hshort : marker <+: c :: (before ++ marker) :=
            List.prefix_of_prefix_length_le (List.isPrefixOf_iff_prefix.1 hprefix)
              (List.prefix_append (c :: (before ++ marker)) other) (by simp; omega)
          exact hshort.trans (List.prefix_append (c :: (before ++ marker)) text)
        rw [List.cons_append, List.cons_append, afterMarker?, if_neg hnot]
        exact hfirst other

/-! ## White space and pairs -/

theorem Respaced.map_pair (respaced : Respaced spaced others) :
    others.map SpacedPair.pair = spaced.map SpacedPair.pair := by
  induction respaced with
  | nil => rfl
  | cons h _ ih => rw [List.map_cons, List.map_cons, h.1, ih]

/-- Pairs that can be written can be written with other white space. -/
theorem Respaced.writable (respaced : Respaced spaced others)
    (writable : ∀ item ∈ spaced, item.pair.Writable) : ∀ item ∈ others, item.pair.Writable := by
  rw [← List.forall_mem_map (f := SpacedPair.pair), respaced.map_pair, List.forall_mem_map]
  exact writable

theorem Respaced.blanks (respaced : Respaced spaced others) :
    ∀ item ∈ others, Blanks item.gap := by
  induction respaced with
  | nil => exact fun item hitem => by contradiction
  | cons h _ ih => exact List.forall_mem_cons.2 ⟨h.2.1, ih⟩

/-- Other white space keeps pairs apart if it starts with a space after plain values. -/
theorem Respaced.apart (respaced : Respaced spaced others) (apart : Apart spaced)
    (hspaces : SpacesFirst others) : Apart others := by
  induction respaced with
  | nil => exact .nil
  | @cons item other spaced others h respaced ih =>
      obtain ⟨hpair, hgap, hkept⟩ := h
      obtain ⟨hspace, hspaces⟩ := List.forall_mem_cons.1 hspaces
      refine .cons hgap hspace (fun hplain hnil => ?_) (ih apart.tail hspaces)
      -- where there is no white space now there was none before, so these are the last pairs
      have hlast := apart.eq_nil (hpair ▸ hplain) (by_contra fun hne => hkept hne hnil)
      subst hlast
      cases respaced
      rfl

/-! ## Lines -/

/-- A line that describes an event can be taken apart. -/
theorem exists_laidOut (h : readLine line = .ok (some event)) :
    ∃ head lead spaced, LaidOut line head lead spaced := by
  obtain ⟨text, pairs, htext, hpairs, _⟩ := readLine_eq_some_iff.1 h
  obtain ⟨lead, spaced, hlead, writable, apart, _, rfl⟩ := readPairs_eq_ok_iff.1 hpairs
  obtain ⟨before, hline, _⟩ := exists_head_of_afterMarker? htext
  exact ⟨_, lead, spaced, hline, htext, hlead, writable, apart⟩

/-- The pairs of a line that is taken apart. -/
theorem LaidOut.readPairs_eq (laid : LaidOut line head lead spaced) :
    readPairs (lead ++ writtenAll spaced) = .ok (spaced.map SpacedPair.pair) :=
  (readPairs_writtenAll_iff laid.lead_blanks laid.writable laid.apart.blanks).2 laid.apart

/-- Another text after the marker is read in place of the one that is there. -/
theorem LaidOut.afterMarker?_eq (laid : LaidOut line head lead spaced) (other : List Char) :
    afterMarker? (head ++ other) = some other := by
  obtain ⟨before, hline, hfirst⟩ := exists_head_of_afterMarker? laid.marked
  rw [List.append_cancel_right (laid.line_eq.symm.trans hline)]
  exact hfirst other

/-- The white space of a line that describes an event can be exchanged. With other white space the
same pairs are read exactly if it starts with a space after plain values, and then the line
describes the same event. -/
theorem readLine_respaced (h : readLine line = .ok (some event)) :
    (∃ head lead spaced, LaidOut line head lead spaced) ∧
    ∀ head lead spaced lead' others, LaidOut line head lead spaced → Blanks lead' →
      Respaced spaced others →
      (readPairs (lead' ++ writtenAll others) = .ok (spaced.map SpacedPair.pair) ↔
        SpacesFirst others) ∧
      (SpacesFirst others →
        readLine (head ++ (lead' ++ writtenAll others)) = .ok (some event)) := by
  refine ⟨exists_laidOut h, fun head lead spaced lead' others laid hlead respaced => ?_⟩
  have hsame : readPairs (lead' ++ writtenAll others) = .ok (spaced.map SpacedPair.pair) ↔
      SpacesFirst others := by
    rw [← respaced.map_pair,
      readPairs_writtenAll_iff hlead (respaced.writable laid.writable) respaced.blanks]
    exact ⟨Apart.spacesFirst, respaced.apart laid.apart⟩
  refine ⟨hsame, fun hspaces => ?_⟩
  obtain ⟨text, pairs, htext, hpairs, hevent⟩ := readLine_eq_some_iff.1 h
  cases htext.symm.trans laid.marked
  cases hpairs.symm.trans laid.readPairs_eq
  exact readLine_eq_some_iff.2 ⟨_, _, laid.afterMarker?_eq _, hsame.2 hspaces, hevent⟩

/-- The begin of some work. -/
def workLine : List Char :=
  "[trace] ts=1 ph=B name=work".toList

/-- The pairs of that line, with some white space. -/
def workPairs (afterTime afterPhase afterName : List Char) : List SpacedPair :=
  [⟨⟨"ts".toList, ['1'], false⟩, afterTime⟩, ⟨⟨"ph".toList, ['B'], false⟩, afterPhase⟩,
    ⟨⟨"name".toList, "work".toList, false⟩, afterName⟩]

theorem laidOut_work :
    LaidOut workLine "[trace] ".toList [] (workPairs [' '] [' '] []) where
  line_eq := by decide
  marked := by decide
  lead_blanks := by decide
  writable := by unfold workPairs; decide
  apart := .plain rfl (by decide) (.plain rfl (by decide) (.last rfl))

/-- Tabs among the white space change nothing where spaces come before them. -/
theorem readLine_respaced_work :
    let others := workPairs [' ', '\t'] [' ', ' '] [' ', '\t']
    LaidOut workLine "[trace] ".toList [] (workPairs [' '] [' '] []) ∧ Blanks ['\t'] ∧
      Respaced (workPairs [' '] [' '] []) others ∧ SpacesFirst others ∧
      ∃ event, readLine workLine = .ok (some event) ∧
        readLine "[trace] \tts=1 \tph=B  name=work \t".toList = .ok (some event) := by
  intro others
  have hlead : Blanks ['\t'] := by decide
  have respaced : Respaced (workPairs [' '] [' '] []) others := by
    unfold Respaced others workPairs
    decide
  have hspaces : SpacesFirst others := by decide
  have hsome : (eventOf? workLine).isSome = true := by decide +kernel
  obtain ⟨event, hevent⟩ := Option.isSome_iff_exists.1 hsome
  have hread := eventOf?_eq_some_iff.1 hevent
  have hsame := (readLine_respaced hread).2 _ _ _ ['\t'] others laidOut_work hlead respaced
  exact ⟨laidOut_work, hlead, respaced, hspaces, event, hread, hsame.2 hspaces⟩

/-- A tab at the end of a line becomes part of the name before it. -/
theorem readLine_append_tab :
    Blanks ['\t'] ∧ ∃ event other, readLine workLine = .ok (some event) ∧
      readLine (workLine ++ ['\t']) = .ok (some other) ∧
      event.name = "work" ∧ other.name = "work\t" := by
  have hname : (eventOf? workLine).map (·.name) = some "work" := by decide +kernel
  have hother : (eventOf? (workLine ++ ['\t'])).map (·.name) = some "work\t" := by decide +kernel
  obtain ⟨event, hevent, hname⟩ := Option.map_eq_some_iff.1 hname
  obtain ⟨other, hotherEvent, hother⟩ := Option.map_eq_some_iff.1 hother
  exact ⟨by decide, event, other, eventOf?_eq_some_iff.1 hevent,
    eventOf?_eq_some_iff.1 hotherEvent, hname, hother⟩

end EventChains.Log
