import EventChains.Proofs.Log
import EventChains.Proofs.Log.Pairs

/-!
# Logs put together

A log can be read in parts. Where the last line of one part has ended, the next part is read as it
would be alone, only that its lines are counted on. The fault that is reported is that of the first
trace line at fault, with the place of that line; and it makes no difference whether lines end at a
line feed or at a carriage return and a line feed (`readEvents_append`).

How a text falls into lines is told by a grammar, `Lines`, which `lines_eq_iff` puts beside the
function that cuts a text; the induction is on this grammar wherever whole texts are concerned.
-/

namespace EventChains

/-- The fault as it is reported when `count` further lines stand before its line. -/
def Fault.lower (count : Nat) : Fault → Fault
  | .line number reason => .line (number + count) reason
  | fault => fault

namespace Log

open EventChains.Text

/-- A text falls into lines. Each ends at a line feed, and takes no carriage return before it with
it; only the last one may end with the text, and is not empty then. -/
inductive Lines : List Char → List (List Char) → Prop where
  | nil : Lines [] []
  | last {line : List Char} (hne : line ≠ []) (hline : '\n' ∉ line) : Lines line [line]
  | feed {line text : List Char} {rest : List (List Char)} (hline : '\n' ∉ line)
      (hreturn : line.getLast? ≠ some '\r') (h : Lines text rest) :
      Lines (line ++ '\n' :: text) (line :: rest)
  | returnFeed {line text : List Char} {rest : List (List Char)} (hline : '\n' ∉ line)
      (h : Lines text rest) : Lines (line ++ '\r' :: '\n' :: text) (line :: rest)

/-- The last line of a text has ended, or there is none. -/
def EndsLine (text : List Char) : Prop :=
  text = [] ∨ text.getLast? = some '\n'

/-- The text with a carriage return before each line feed. -/
def withReturns (text : List Char) : List Char :=
  text.flatMap fun c => if c = '\n' then ['\r', '\n'] else [c]

/-- The first one of some lines at fault: a trace line that gives no event, behind lines that are no
trace lines or give one. Lines are counted from one. -/
inductive FirstFault : List (List Char) → Nat → LineFault → Prop where
  | here {line : List Char} {rest : List (List Char)} {reason : LineFault}
      (hline : isTraceLine line = true) (hread : readLine line = .error reason) :
      FirstFault (line :: rest) 1 reason
  | later {line : List Char} {rest : List (List Char)} {event? : Option Event} {number : Nat}
      {reason : LineFault} (hread : readLine line = .ok event?)
      (h : FirstFault rest number reason) : FirstFault (line :: rest) (number + 1) reason

variable {line text first second : List Char} {cut rest : List (List Char)}

/-! ## Lines of a text -/

theorem dropReturn_of_ne (h : line.getLast? ≠ some '\r') : dropReturn line = line :=
  if_neg h

theorem dropReturn_append (line : List Char) : dropReturn (line ++ ['\r']) = line := by
  rw [dropReturn, if_pos List.getLast?_concat, List.dropLast_concat]

/-- A text without a line feed is one line. -/
theorem lines_of_notMem (hne : line ≠ []) (hline : '\n' ∉ line) : lines line = [line] := by
  have hkept : ∀ c ∈ line, decide (c ≠ '\n') = true := fun c hc =>
    decide_eq_true fun heq => hline (heq ▸ hc)
  have hempty : ¬ line.isEmpty = true := mt List.isEmpty_iff.1 hne
  rw [lines, if_neg hempty]
  dsimp only
  split
  · rw [List.takeWhile_eq_self_iff.2 hkept]
  · rename_i hdrop
    rw [List.dropWhile_eq_nil_iff.2 hkept] at hdrop
    contradiction

/-- A line ends at a line feed. -/
theorem lines_append_feed (hline : '\n' ∉ line) (text : List Char) :
    lines (line ++ '\n' :: text) = dropReturn line :: lines text := by
  have hcut : _ ∧ (line ++ '\n' :: text).dropWhile (· ≠ '\n') = _ := cut_iff.2 ⟨hline, rfl⟩
  obtain ⟨htake, hdrop⟩ := hcut
  have hempty : ¬ (line ++ '\n' :: text).isEmpty = true := by simp
  rw [lines, if_neg hempty]
  dsimp only
  split
  · rename_i hnil
    rw [hdrop] at hnil
    contradiction
  · rename_i hcons
    rw [hdrop] at hcons
    cases hcons
    rw [htake]

/-- A line with its end comes before the lines of the rest. -/
theorem Lines.cons (hline : '\n' ∉ line) (h : Lines text rest) :
    Lines (line ++ '\n' :: text) (dropReturn line :: rest) := by
  by_cases hreturn : line.getLast? = some '\r'
  · obtain ⟨front, rfl⟩ := List.getLast?_eq_some_iff.1 hreturn
    rw [dropReturn_append, List.append_assoc]
    exact .returnFeed (fun hmem => hline (List.mem_append_left _ hmem)) h
  · rw [dropReturn_of_ne hreturn]
    exact .feed hline hreturn h

/-- A text falls into the lines that are cut from it. -/
theorem lines_spec (text : List Char) : Lines text (lines text) := by
  fun_induction lines text with
  | case1 text hempty =>
      rw [List.isEmpty_iff.1 hempty]
      exact .nil
  | case2 text hempty line hdrop =>
      have hline : line = text := by
        rw [← List.takeWhile_append_dropWhile (p := (· ≠ '\n')) (l := text), hdrop, List.append_nil]
      rw [hline]
      refine .last (mt List.isEmpty_iff.2 hempty) fun hmem => ?_
      simpa using List.mem_takeWhile_imp (hline ▸ hmem : '\n' ∈ line)
  | case3 text hempty line c rest hdrop ih =>
      obtain rfl := eq_of_dropWhile_ne hdrop
      obtain ⟨hline, htext⟩ := cut_iff.1 ⟨rfl, hdrop⟩
      rw [htext]
      exact .cons hline ih

/-- A text falls into one sequence of lines, the one that is cut from it. -/
theorem lines_eq_iff : lines text = cut ↔ Lines text cut := by
  constructor
  · rintro rfl
    exact lines_spec text
  · intro h
    induction h with
    | nil => simp [lines]
    | last hne hline => exact lines_of_notMem hne hline
    | feed hline hreturn _ ih => rw [lines_append_feed hline, dropReturn_of_ne hreturn, ih]
    | @returnFeed line text rest hline _ ih =>
        have hreturn : '\n' ∉ line ++ ['\r'] := by simpa using hline
        rw [List.append_cons, lines_append_feed hreturn, dropReturn_append, ih]

/-! ## Texts put together -/

/-- Behind the end of a line, the last line of the rest is the last line of all. -/
theorem EndsLine.tail (ends : EndsLine (line ++ '\n' :: text)) : EndsLine text := by
  refine ends.elim (fun h => by simp at h) fun h => ?_
  cases text with
  | nil => exact Or.inl rfl
  | cons c text =>
      rw [List.getLast?_append_cons, List.getLast?_cons_cons] at h
      exact Or.inr h

/-- Behind a text whose last line has ended, the lines of another text follow. -/
theorem Lines.append (h : Lines first cut) (ends : EndsLine first) (hsecond : Lines second rest) :
    Lines (first ++ second) (cut ++ rest) := by
  induction h with
  | nil => exact hsecond
  | last hne hline =>
      exact absurd (List.mem_of_getLast? (ends.resolve_left hne)) hline
  | feed hline hreturn _ ih =>
      rw [List.append_assoc]
      exact .feed hline hreturn (ih ends.tail)
  | returnFeed hline _ ih =>
      rw [List.append_cons] at ends
      rw [List.append_assoc]
      exact .returnFeed hline (ih ends.tail)

/-- A text whose last line has ended has one line for each line feed. -/
theorem Lines.length_eq (h : Lines text cut) (ends : EndsLine text) :
    cut.length = text.count '\n' := by
  induction h with
  | nil => rfl
  | last hne hline =>
      exact absurd (List.mem_of_getLast? (ends.resolve_left hne)) hline
  | feed hline _ _ ih =>
      rw [List.length_cons, ih ends.tail, List.count_append, List.count_eq_zero.2 hline,
        List.count_cons_self, Nat.zero_add]
  | @returnFeed line text rest hline _ ih =>
      have hreturn : '\n' ∉ line ++ ['\r'] := by simpa using hline
      rw [List.append_cons] at ends ⊢
      rw [List.length_cons, ih ends.tail, List.count_append, List.count_eq_zero.2 hreturn,
        List.count_cons_self, Nat.zero_add]

theorem withReturns_append (first second : List Char) :
    withReturns (first ++ second) = withReturns first ++ withReturns second :=
  List.flatMap_append

/-- Without a line feed nothing is added. -/
theorem withReturns_of_notMem (hline : '\n' ∉ line) : withReturns line = line := by
  induction line with
  | nil => rfl
  | cons c line ih =>
      obtain ⟨hc, hline⟩ := not_or.1 (mt List.mem_cons.2 hline)
      rw [withReturns, List.flatMap_cons, if_neg (Ne.symm hc)]
      exact congrArg (c :: ·) (ih hline)

/-- Carriage returns before all line feeds change no line. -/
theorem Lines.withReturns (h : Lines text cut) (hreturn : '\r' ∉ text) :
    Lines (withReturns text) cut := by
  induction h with
  | nil => exact .nil
  | last hne hline =>
      rw [withReturns_of_notMem hline]
      exact .last hne hline
  | feed hline _ _ ih =>
      rw [withReturns_append, withReturns_of_notMem hline]
      refine .returnFeed hline (ih fun hmem => hreturn ?_)
      exact List.mem_append_right _ (List.mem_cons_of_mem _ hmem)
  | returnFeed => simp at hreturn

/-! ## Reading lines -/

/-- Lines are read one after the other, up to the first fault. -/
theorem readLines_append (numbered others : List (List Char × Nat)) :
    readLines (numbered ++ others) =
      match readLines numbered, readLines others with
      | .error fault, _ => .error fault
      | .ok _, .error fault => .error fault
      | .ok events, .ok more => .ok (events ++ more) := by
  induction numbered with
  | nil => cases h : readLines others <;> simp [readLines, h]
  | cons head rest ih =>
      obtain ⟨line, number⟩ := head
      rw [List.cons_append, readLines, readLines, ih]
      cases readLine line with
      | error reason => rfl
      | ok event? =>
          cases event? with
          | none => rfl
          | some event => cases readLines rest <;> cases readLines others <;> rfl

/-- Lines that are counted on give the same events, or the same fault with the greater number. -/
theorem readLines_zipIdx_add (cut : List (List Char)) (start count : Nat) :
    readLines (cut.zipIdx (start + count)) =
      (readLines (cut.zipIdx start)).mapError (·.lower count) := by
  induction cut generalizing start with
  | nil => rfl
  | cons line rest ih =>
      rw [List.zipIdx_cons, List.zipIdx_cons, readLines, readLines, Nat.add_right_comm, ih]
      cases readLine line with
      | error reason => rfl
      | ok event? =>
          cases event? with
          | none => rfl
          | some event => cases readLines (rest.zipIdx (start + 1)) <;> rfl

/-- A line that is read adds its event, if it has one, and has no bearing on faults. -/
theorem readLines_cons_eq_error_iff {line : List Char} {event? : Option Event} {number : Nat}
    {numbered : List (List Char × Nat)} {fault : Fault} (hread : readLine line = .ok event?) :
    readLines ((line, number) :: numbered) = .error fault ↔ readLines numbered = .error fault := by
  rw [readLines, hread]
  cases event? with
  | none => exact Iff.rfl
  | some event => cases readLines numbered <;> simp [Except.map]

/-- The fault of lines is that of the first one at fault. -/
theorem readLines_eq_error_iff {start : Nat} {fault : Fault} :
    readLines (cut.zipIdx (start + 1)) = .error fault ↔
      ∃ number reason, fault = .line (start + number) reason ∧ FirstFault cut number reason := by
  constructor
  · intro h
    induction cut generalizing start with
    | nil => contradiction
    | cons line rest ih =>
        rw [List.zipIdx_cons] at h
        cases hread : readLine line with
        | error reason =>
            rw [readLines, hread] at h
            cases h
            exact ⟨1, reason, rfl, .here (isTraceLine_of_readLine (by simp [hread])) hread⟩
        | ok event? =>
            obtain ⟨number, reason, hfault, hfirst⟩ :=
              ih ((readLines_cons_eq_error_iff hread).1 h)
            rw [Nat.add_right_comm] at hfault
            exact ⟨number + 1, reason, hfault, .later hread hfirst⟩
  · rintro ⟨number, reason, rfl, h⟩
    induction h generalizing start with
    | here _ hread =>
        rw [List.zipIdx_cons, readLines, hread]
    | later hread _ ih =>
        rw [List.zipIdx_cons, readLines_cons_eq_error_iff hread, ih, Nat.add_right_comm]
        rfl

/-! ## Logs -/

/-- A log is read in parts: behind a part whose last line has ended, the next one is read as it
would be alone, with its lines counted on. The fault of a log is that of its first trace line at
fault, and carriage returns before all line feeds change nothing. -/
theorem readEvents_append :
    (∀ first second : String, EndsLine first.toList →
      readEvents (first ++ second) =
        match readEvents first, readEvents second with
        | .error fault, _ => .error fault
        | .ok _, .error fault => .error (fault.lower (first.toList.count '\n'))
        | .ok events, .ok more => .ok (events ++ more)) ∧
    (∀ (log : String) (fault : Fault), readEvents log = .error fault ↔
      ∃ cut number reason, Lines log.toList cut ∧ FirstFault cut number reason ∧
        fault = .line number reason) ∧
    ∀ log : String, '\r' ∉ log.toList →
      readEvents (String.ofList (withReturns log.toList)) = readEvents log := by
  refine ⟨fun first second ends => ?_, fun log fault => ?_, fun log hreturn => ?_⟩
  · have hfirst := lines_spec first.toList
    have hlines : lines (first ++ second).toList = lines first.toList ++ lines second.toList := by
      rw [String.toList_append]
      exact lines_eq_iff.2 (hfirst.append ends (lines_spec second.toList))
    unfold readEvents
    rw [hlines, List.zipIdx_append, readLines_append, readLines_zipIdx_add, hfirst.length_eq ends]
    cases readLines ((lines first.toList).zipIdx 1) with
    | error fault => rfl
    | ok events => cases readLines ((lines second.toList).zipIdx 1) <;> rfl
  · have hfault : readLines ((lines log.toList).zipIdx (0 + 1)) = .error fault ↔ _ :=
      readLines_eq_error_iff
    simp only [Nat.zero_add] at hfault
    rw [readEvents, hfault]
    constructor
    · rintro ⟨number, reason, hline, hfirst⟩
      exact ⟨_, number, reason, lines_spec log.toList, hfirst, hline⟩
    · rintro ⟨cut, number, reason, hcut, hfirst, hline⟩
      cases lines_eq_iff.2 hcut
      exact ⟨number, reason, hline, hfirst⟩
  · have hlines := (lines_spec log.toList).withReturns hreturn
    rw [readEvents, String.toList_ofList, lines_eq_iff.2 hlines]
    rfl

/-- A load, on the second of two lines that end differently. -/
def loadLog : String :=
  "noise\n[trace] ts=1 ph=B name=load\r\n"

/-- A load without a time, on the second line, which does not end. -/
def timelessLog : String :=
  "\n[trace] ph=B name=load"

/-- Behind two lines, the fault of a second line is that of the fourth. -/
theorem readEvents_append_timeless :
    EndsLine loadLog.toList ∧ '\r' ∉ timelessLog.toList ∧ (readEvents loadLog).isOk = true ∧
      readEvents timelessLog = .error (.line 2 (.missing .ts)) ∧
      readEvents (loadLog ++ timelessLog) = .error (.line 4 (.missing .ts)) ∧
      readEvents "\r\n[trace] ph=B name=load" = .error (.line 2 (.missing .ts)) := by
  obtain ⟨happend, hfirst, hreturns⟩ := readEvents_append
  have ends : EndsLine loadLog.toList := Or.inr (by decide)
  have hreturn : '\r' ∉ timelessLog.toList := by decide
  have hload : (readEvents loadLog).isOk = true := by decide +kernel
  have hnone : readLine [] = .ok none := by cbv
  have hread : readLine "[trace] ph=B name=load".toList = .error (.missing .ts) := by cbv
  have hend : Lines "[trace] ph=B name=load".toList ["[trace] ph=B name=load".toList] :=
    .last (by decide) (by decide)
  have hlines : Lines timelessLog.toList [[], "[trace] ph=B name=load".toList] :=
    hend.cons List.not_mem_nil
  have htimeless : readEvents timelessLog = .error (.line 2 (.missing .ts)) :=
    (hfirst _ _).2 ⟨_, 2, _, hlines, .later hnone (.here (by decide) hread), rfl⟩
  refine ⟨ends, hreturn, hload, htimeless, ?_, (hreturns timelessLog hreturn).trans htimeless⟩
  rw [happend loadLog timelessLog ends, htimeless]
  cases hevents : readEvents loadLog with
  | error fault =>
      rw [hevents] at hload
      contradiction
  | ok events => rfl

end Log

end EventChains
