import EventChains.Fault
import EventChains.Proofs.CompiledPattern
import EventChains.Proofs.Text.Trim

/-!
# How patterns are spelled

`Spells` says how tokens are written in a text, with the freedom that blanks and ignored marks give,
and `WellFormed` says which token lists make a pattern. `ofText_reads` puts the two together: a text
is read as a pattern exactly if it spells a well-formed token list, which is then the only one it
spells, and every other text is refused with a fault that names it.

The characters are read one at a time, so what one of them does is said first (`Scan.Reads`).
-/

namespace EventChains.Pattern

open EventChains.Text

/-- A character that a name cannot have. -/
def IsMark (c : Char) : Prop :=
  c = '+' ∨ c = '-' ∨ c = '*'

/-- A name that a token can have. -/
structure IsName (name : String) : Prop where
  ne_empty : name ≠ ""
  unmarked : ∀ c ∈ name.toList, ¬ IsMark c
  bare : Bare name.toList

/-- Tokens that make a pattern: a named one at each end, no two wildcards side by side, and names
that can be written. -/
structure WellFormed (tokens : List Token) : Prop where
  first : ∃ name edge, tokens.head? = some (.named name edge)
  last : ∃ name edge, tokens.getLast? = some (.named name edge)
  separated : Separated tokens
  names : ∀ name edge, .named name edge ∈ tokens → IsName name

/-- Tokens in a text: each name before its mark, each wildcard as a star that one mark may follow,
and blanks anywhere but inside a name. -/
inductive Spells : List Token → List Char → Prop where
  | nil {blanks : List Char} : Blanks blanks → Spells [] blanks
  | named {before after text : List Char} {tokens : List Token} (name : String) (edge : Edge) :
      Blanks before → Blanks after → Spells tokens text →
      Spells (.named name edge :: tokens)
        (before ++ name.toList ++ after ++ edge.mark :: text)
  | wildcard {before text : List Char} {tokens : List Token} :
      Blanks before → Spells tokens text → Spells (.wildcard :: tokens) (before ++ '*' :: text)
  | markedWildcard {before after text : List Char} {tokens : List Token} (edge : Edge) :
      Blanks before → Blanks after → Spells tokens text →
      Spells (.wildcard :: tokens) (before ++ '*' :: (after ++ edge.mark :: text))

theorem isMark_mark (edge : Edge) : IsMark edge.mark := by
  cases edge with
  | opening => exact Or.inl rfl
  | closing => exact Or.inr (Or.inl rfl)

/-- No mark is blank. -/
theorem not_isMark_of_isBlank {c : Char} (h : isBlank c = true) : ¬ IsMark c := by
  rintro (rfl | rfl | rfl) <;> contradiction

namespace Scan

theorem name_eq_nil_iff {scan : Scan} : scan.name = [] ↔ Blanks scan.pending := by
  rw [name, trim_eq_nil_iff]
  exact ⟨fun h => List.reverse_reverse scan.pending ▸ h.reverse, Blanks.reverse⟩

/-- The pending characters are a name between blanks. -/
theorem bare_name (scan : Scan) :
    Bare scan.name ∧ ∃ before after, Blanks before ∧ Blanks after ∧
      scan.pending.reverse = before ++ scan.name ++ after :=
  trim_eq_iff.1 rfl

/-! ## What one character does -/

/-- The state `read` with the bytes of a character counted. -/
def past (scan : Scan) (c : Char) (read : Scan) : Scan :=
  { read with offset := scan.offset + c.utf8Size }

theorem add_star (scan : Scan) : scan.add '*' = scan.addWildcard.map (scan.past '*') := by
  cases h : scan.addWildcard with
  | error fault => simp [add, h, Except.map, bind, Except.bind]
  | ok read => simp [add, h, Except.map, bind, Except.bind, past]

theorem add_mark (scan : Scan) (edge : Edge) :
    scan.add edge.mark = (scan.addMark edge).map (scan.past edge.mark) := by
  have hstar : edge.mark ≠ '*' := by cases edge <;> decide
  have hedge : Edge.ofMark? edge.mark = some edge := by cases edge <;> rfl
  cases h : scan.addMark edge with
  | error fault => simp [add, hstar, hedge, h, Except.map, bind, Except.bind]
  | ok read => simp [add, hstar, hedge, h, Except.map, bind, Except.bind, past]

theorem add_unmarked (scan : Scan) {c : Char} (h : ¬ IsMark c) :
    scan.add c = .ok (scan.past c { scan with pending := c :: scan.pending }) := by
  rw [IsMark, not_or, not_or] at h
  simp [add, Edge.ofMark?, h, bind, Except.bind, past]

/-- What reading a character that is not refused does. -/
inductive Reads (scan : Scan) : Char → Scan → Prop where
  | wildcard (hname : Blanks scan.pending) (hlast : scan.tokens.head? ≠ some .wildcard) :
      Reads scan '*' <| scan.past '*'
        { scan with tokens := .wildcard :: scan.tokens, pending := [], openWildcard := true }
  | named (edge : Edge) (hname : scan.name ≠ []) :
      Reads scan edge.mark <| scan.past edge.mark
        { scan with
          tokens := .named (String.ofList scan.name) edge :: scan.tokens
          pending := []
          openWildcard := false }
  | ignored (edge : Edge) (hname : Blanks scan.pending) (hopen : scan.openWildcard = true) :
      Reads scan edge.mark <| scan.past edge.mark
        { scan with pending := [], openWildcard := false }
  | unmarked {c : Char} (hmark : ¬ IsMark c) :
      Reads scan c <| scan.past c { scan with pending := c :: scan.pending }

theorem reads_of_add {scan later : Scan} {c : Char} (h : scan.add c = .ok later) :
    scan.Reads c later := by
  by_cases hmark : IsMark c
  · have hblanks (hname : ¬ (!scan.name.isEmpty) = true) : Blanks scan.pending := by
      simpa [name_eq_nil_iff] using hname
    obtain rfl | ⟨edge, rfl⟩ : c = '*' ∨ ∃ edge : Edge, c = edge.mark := by
      obtain rfl | rfl | rfl := hmark
      · exact Or.inr ⟨.opening, rfl⟩
      · exact Or.inr ⟨.closing, rfl⟩
      · exact Or.inl rfl
    · rw [add_star] at h
      obtain ⟨read, hread, rfl⟩ := map_eq_ok_iff.1 h
      unfold addWildcard at hread
      split at hread
      · contradiction
      · split at hread
        · contradiction
        · cases hread
          exact .wildcard (hblanks ‹_›) ‹_›
    · rw [add_mark] at h
      obtain ⟨read, hread, rfl⟩ := map_eq_ok_iff.1 h
      unfold addMark at hread
      split at hread
      · rename_i hname
        cases hread
        exact .named edge (by simpa using hname)
      · split at hread
        · cases hread
          exact .ignored edge (hblanks ‹_›) ‹_›
        · contradiction
  · rw [add_unmarked scan hmark] at h
    cases h
    exact .unmarked hmark

theorem add_of_reads {scan later : Scan} {c : Char} (h : scan.Reads c later) :
    scan.add c = .ok later := by
  have hempty (hname : Blanks scan.pending) : ¬ (!scan.name.isEmpty) = true := by
    simpa [name_eq_nil_iff] using hname
  cases h with
  | wildcard hname hlast =>
      rw [add_star, addWildcard, if_neg (hempty hname), if_neg hlast]
      rfl
  | named edge hname =>
      rw [add_mark, addMark, if_pos (by simpa using hname)]
      rfl
  | ignored edge hname hopen =>
      rw [add_mark, addMark, if_neg (hempty hname), if_pos hopen]
      rfl
  | unmarked hmark => exact add_unmarked scan hmark

/-! ## What is read is spelled -/

/-- What the text after a wildcard can start with: a mark that is ignored, if the wildcard is still
open for one. -/
inductive Continues (openWildcard : Bool) (tokens : List Token) : List Char → Prop where
  | spells {text : List Char} : Spells tokens text → Continues openWildcard tokens text
  | ignored {after text : List Char} (edge : Edge) (hopen : openWildcard = true) :
      Blanks after → Spells tokens text →
      Continues openWildcard tokens (after ++ edge.mark :: text)

theorem Continues.wildcard {tokens : List Token} {before text : List Char} {openWildcard : Bool}
    (h : Continues openWildcard tokens text) (hbefore : Blanks before) :
    Spells (.wildcard :: tokens) (before ++ '*' :: text) := by
  cases h with
  | spells h => exact .wildcard hbefore h
  | ignored edge _ hafter h => exact .markedWildcard edge hbefore hafter h

theorem Continues.of_closed {tokens : List Token} {text : List Char}
    (h : Continues false tokens text) : Spells tokens text := by
  cases h with
  | spells h => exact h
  | ignored _ hopen => contradiction

/-- A text that is read to its end spells the tokens that are new, from the characters on that were
pending before it. -/
theorem continues_of_foldlM {text : List Char} {scan later : Scan}
    (h : text.foldlM add scan = .ok later) (hend : Blanks later.pending)
    (hunmarked : ∀ c ∈ scan.pending, ¬ IsMark c) :
    ∃ tokens, later.tokens = tokens.reverse ++ scan.tokens ∧
      (∀ name edge, .named name edge ∈ tokens → IsName name) ∧
      Continues scan.openWildcard tokens (scan.pending.reverse ++ text) := by
  induction text generalizing scan with
  | nil =>
      cases h
      refine ⟨[], rfl, fun _ _ hname => by contradiction, .spells (.nil ?_)⟩
      rw [List.append_nil]
      exact hend.reverse
  | cons c rest ih =>
      rw [List.foldlM_cons] at h
      obtain ⟨read, hread, hrest⟩ := bind_eq_ok_iff.1 h
      cases reads_of_add hread with
      | wildcard hname _ =>
          obtain ⟨tokens, htokens, hnames, hcontinues⟩ := ih hrest (fun c hc => by contradiction)
          refine ⟨.wildcard :: tokens, by simp [htokens, past], fun name edge hmem => ?_, ?_⟩
          · exact hnames name edge (by simpa using hmem)
          · exact .spells (hcontinues.wildcard hname.reverse)
      | named edge hname =>
          obtain ⟨tokens, htokens, hnames, hcontinues⟩ := ih hrest (fun c hc => by contradiction)
          obtain ⟨bare, before, after, hbefore, hafter, htext⟩ := scan.bare_name
          refine ⟨.named (String.ofList scan.name) edge :: tokens, by simp [htokens, past],
            fun other otherEdge hmem => ?_, ?_⟩
          · obtain heq | hmem := List.mem_cons.1 hmem
            · cases heq
              refine ⟨by simpa using hname, fun c hc => hunmarked c ?_, by simpa using bare⟩
              rw [String.toList_ofList] at hc
              rw [← List.mem_reverse, htext]
              simp [hc]
            · exact hnames other otherEdge hmem
          · have hspells := Spells.named (String.ofList scan.name) edge hbefore hafter
              hcontinues.of_closed
            rw [String.toList_ofList, ← htext] at hspells
            exact .spells hspells
      | ignored edge hname hopen =>
          obtain ⟨tokens, htokens, hnames, hcontinues⟩ := ih hrest (fun c hc => by contradiction)
          exact ⟨tokens, htokens, hnames,
            .ignored edge hopen hname.reverse hcontinues.of_closed⟩
      | unmarked hmark =>
          obtain ⟨tokens, htokens, hnames, hcontinues⟩ := ih hrest (by
            intro other hother
            obtain rfl | hother := List.mem_cons.1 hother
            · exact hmark
            · exact hunmarked other hother)
          refine ⟨tokens, htokens, hnames, ?_⟩
          simpa [past] using hcontinues

/-! ## What is spelled is read -/

/-- Two texts are read one after the other. -/
theorem foldlM_append_eq_ok_iff {text rest : List Char} {scan later : Scan} :
    (text ++ rest).foldlM add scan = .ok later ↔
      ∃ read, text.foldlM add scan = .ok read ∧ rest.foldlM add read = .ok later := by
  rw [List.foldlM_append]
  exact bind_eq_ok_iff

/-- A text is read up to one of its characters, and on from there. -/
theorem foldlM_append_cons_eq_ok {text rest : List Char} {c : Char} {scan read later : Scan}
    (htext : (text ++ [c]).foldlM add scan = .ok read) (hrest : rest.foldlM add read = .ok later) :
    (text ++ c :: rest).foldlM add scan = .ok later := by
  rw [List.append_cons]
  exact foldlM_append_eq_ok_iff.2 ⟨read, htext, hrest⟩

theorem foldlM_singleton (scan : Scan) (c : Char) : [c].foldlM add scan = scan.add c := by
  cases h : scan.add c <;> simp [h, bind, Except.bind, pure, Except.pure]

/-- Characters that are no marks become pending. -/
theorem foldlM_of_unmarked {text : List Char} (scan : Scan) (h : ∀ c ∈ text, ¬ IsMark c) :
    ∃ offset, text.foldlM add scan =
      .ok { scan with pending := text.reverse ++ scan.pending, offset } := by
  induction text generalizing scan with
  | nil => exact ⟨scan.offset, rfl⟩
  | cons c rest ih =>
      obtain ⟨offset, hrest⟩ := ih (scan.past c { scan with pending := c :: scan.pending })
        fun other hother => h other (List.mem_cons_of_mem c hother)
      refine ⟨offset, ?_⟩
      rw [List.foldlM_cons, add_unmarked scan (h c List.mem_cons_self)]
      refine hrest.trans ?_
      simp [past]

variable {scan : Scan} (hpending : scan.pending = [])
include hpending

theorem foldlM_of_blanks {blanks : List Char} (h : Blanks blanks) :
    ∃ offset, blanks.foldlM add scan = .ok { scan with pending := blanks.reverse, offset } := by
  obtain ⟨offset, hread⟩ := scan.foldlM_of_unmarked fun c hc => not_isMark_of_isBlank (h c hc)
  rw [hpending, List.append_nil] at hread
  exact ⟨offset, hread⟩

/-- A name between blanks and its mark are read as a token. -/
theorem foldlM_of_name {before after : List Char} {name : String} (hname : IsName name)
    (edge : Edge) (hbefore : Blanks before) (hafter : Blanks after) :
    ∃ offset, (before ++ name.toList ++ after ++ [edge.mark]).foldlM add scan =
      .ok { tokens := .named name edge :: scan.tokens, offset } := by
  have hunmarked : ∀ c ∈ before ++ name.toList ++ after, ¬ IsMark c := by
    intro c hc
    rw [List.mem_append, List.mem_append] at hc
    obtain (hc | hc) | hc := hc
    · exact not_isMark_of_isBlank (hbefore c hc)
    · exact hname.unmarked c hc
    · exact not_isMark_of_isBlank (hafter c hc)
  obtain ⟨offset, hread⟩ := scan.foldlM_of_unmarked hunmarked
  rw [hpending, List.append_nil] at hread
  -- the pending characters are trimmed to the name that is written
  have hscanned : Scan.name { scan with
      pending := (before ++ name.toList ++ after).reverse, offset } = name.toList := by
    rw [Scan.name, List.reverse_reverse]
    exact trim_eq_iff.2 ⟨hname.bare, before, after, hbefore, hafter, rfl⟩
  have hmark := add_of_reads (.named edge (hscanned.trans_ne (by simpa using hname.ne_empty)))
  rw [hscanned, String.ofList_toList, ← foldlM_singleton] at hmark
  exact ⟨_, foldlM_append_eq_ok_iff.2 ⟨_, hread, hmark⟩⟩

/-- Blanks and a star are read as a wildcard. -/
theorem foldlM_of_star {before : List Char} (hbefore : Blanks before)
    (hlast : scan.tokens.head? ≠ some .wildcard) :
    ∃ offset, (before ++ ['*']).foldlM add scan =
      .ok { tokens := .wildcard :: scan.tokens, openWildcard := true, offset } := by
  obtain ⟨offset, hread⟩ := foldlM_of_blanks hpending hbefore
  have hstar := add_of_reads (@Reads.wildcard { scan with pending := before.reverse, offset }
    hbefore.reverse hlast)
  rw [← foldlM_singleton] at hstar
  exact ⟨_, foldlM_append_eq_ok_iff.2 ⟨_, hread, hstar⟩⟩

/-- Blanks and a mark after a wildcard are ignored. -/
theorem foldlM_of_ignored {after : List Char} (edge : Edge) (hafter : Blanks after)
    (hopen : scan.openWildcard = true) :
    ∃ offset, (after ++ [edge.mark]).foldlM add scan = .ok { tokens := scan.tokens, offset } := by
  obtain ⟨offset, hread⟩ := foldlM_of_blanks hpending hafter
  have hmark := add_of_reads (@Reads.ignored { scan with pending := after.reverse, offset } edge
    hafter.reverse hopen)
  rw [← foldlM_singleton] at hmark
  exact ⟨_, foldlM_append_eq_ok_iff.2 ⟨_, hread, hmark⟩⟩

omit hpending

/-- The token before a wildcard is none. -/
theorem head?_ne_of_separated {tokens more : List Token}
    (h : Separated (tokens ++ .wildcard :: more)) : more.head? ≠ some .wildcard := by
  intro hmore
  obtain ⟨_, hwildcard, _⟩ := List.isChain_append.1 h
  exact (List.isChain_cons.1 hwildcard).1 _ hmore ⟨rfl, rfl⟩

/-- A text that spells tokens is read to its end, and the tokens are those that are new. -/
theorem foldlM_of_spells {tokens : List Token} {text : List Char} (h : Spells tokens text)
    {scan : Scan} (hpending : scan.pending = [])
    (hnames : ∀ name edge, .named name edge ∈ tokens → IsName name)
    (hseparated : Separated (tokens.reverse ++ scan.tokens)) :
    ∃ later, text.foldlM add scan = .ok later ∧ Blanks later.pending ∧
      later.tokens = tokens.reverse ++ scan.tokens := by
  induction h generalizing scan with
  | nil hblanks =>
      obtain ⟨offset, hread⟩ := foldlM_of_blanks hpending hblanks
      exact ⟨_, hread, hblanks.reverse, rfl⟩
  | @named before after text tokens name edge hbefore hafter _ ih =>
      rw [List.reverse_cons, List.append_assoc tokens.reverse] at hseparated ⊢
      obtain ⟨offset, hname⟩ := foldlM_of_name hpending (hnames name edge List.mem_cons_self) edge
        hbefore hafter
      obtain ⟨later, hrest, hend⟩ := @ih { tokens := .named name edge :: scan.tokens, offset } rfl
        (fun other otherEdge hmem => hnames other otherEdge (List.mem_cons_of_mem _ hmem))
        hseparated
      exact ⟨later, foldlM_append_cons_eq_ok hname hrest, hend⟩
  | @wildcard before text tokens hbefore _ ih =>
      rw [List.reverse_cons, List.append_assoc tokens.reverse] at hseparated ⊢
      obtain ⟨offset, hstar⟩ := foldlM_of_star hpending hbefore (head?_ne_of_separated hseparated)
      obtain ⟨later, hrest, hend⟩ :=
        @ih { tokens := .wildcard :: scan.tokens, openWildcard := true, offset } rfl
        (fun name edge hmem => hnames name edge (List.mem_cons_of_mem _ hmem)) hseparated
      exact ⟨later, foldlM_append_cons_eq_ok hstar hrest, hend⟩
  | @markedWildcard before after text tokens edge hbefore hafter _ ih =>
      rw [List.reverse_cons, List.append_assoc tokens.reverse] at hseparated ⊢
      obtain ⟨offset, hstar⟩ := foldlM_of_star hpending hbefore (head?_ne_of_separated hseparated)
      obtain ⟨offset', hmark⟩ := @foldlM_of_ignored
        { tokens := .wildcard :: scan.tokens, openWildcard := true, offset } rfl _ edge hafter rfl
      obtain ⟨later, hrest, hend⟩ := @ih
        { tokens := .wildcard :: scan.tokens, offset := offset' } rfl
        (fun name edge hmem => hnames name edge (List.mem_cons_of_mem _ hmem)) hseparated
      exact ⟨later, foldlM_append_cons_eq_ok hstar (foldlM_append_cons_eq_ok hmark hrest), hend⟩

theorem ne_wildcard_iff {token? : Option Token} :
    token? ≠ none ∧ token? ≠ some .wildcard ↔ ∃ name edge, token? = some (.named name edge) := by
  cases token? with
  | none => simp
  | some token => cases token <;> simp

/-- The end of a text makes a pattern of its tokens if a named one stands at each end. -/
theorem finish_eq_ok_iff {scan : Scan} {pattern : Pattern} :
    scan.finish = .ok pattern ↔ Blanks scan.pending ∧ pattern.tokens = scan.tokens.reverse ∧
      (∃ name edge, pattern.tokens.head? = some (.named name edge)) ∧
      ∃ name edge, pattern.tokens.getLast? = some (.named name edge) := by
  rw [← ne_wildcard_iff, ← ne_wildcard_iff, ← name_eq_nil_iff, finish]
  constructor
  · intro h
    split at h
    · contradiction
    · rename_i hname
      split at h
      · contradiction
      · rename_i hfirst
        split at h
        · contradiction
        · rename_i hlast
          split at h
          · contradiction
          · rename_i hempty
            cases h
            refine ⟨by simpa using hname, rfl, ?_, ?_⟩
            · exact ⟨by simpa using hempty, by simpa using hfirst⟩
            · exact ⟨by simpa using hempty, by simpa using hlast⟩
  · rintro ⟨hname, htokens, ⟨hempty, hfirst⟩, _, hlast⟩
    rw [htokens] at hempty hfirst hlast
    rw [if_neg (by simp [hname]), if_neg (by simpa using hfirst), if_neg (by simpa using hlast),
      if_neg (by simpa using hempty), ← htokens]

end Scan

/-- A text without marks spells no tokens. -/
theorem Spells.eq_nil {tokens : List Token} {text : List Char} (h : Spells tokens text)
    (hblanks : Blanks text) : tokens = [] := by
  have hmark {c : Char} (hc : IsMark c) : c ∉ text :=
    fun hmem => not_isMark_of_isBlank (hblanks c hmem) hc
  cases h with
  | nil => rfl
  | named name edge => exact absurd (by simp) (hmark (isMark_mark edge))
  | wildcard => exact absurd (by simp) (hmark (Or.inr (Or.inr rfl)))
  | markedWildcard edge => exact absurd (by simp) (hmark (isMark_mark edge))

/-- Exactly the texts that spell well-formed tokens are read, and the tokens are what is read. -/
theorem compile_eq_ok_iff {source : String} {pattern : Pattern} :
    compile source = .ok pattern ↔
      WellFormed pattern.tokens ∧ Spells pattern.tokens source.toList := by
  constructor
  · intro h
    have hseparated := separated_of_compile h
    unfold compile at h
    split at h
    · contradiction
    · obtain ⟨scan, hscan, hfinish⟩ := bind_eq_ok_iff.1 h
      obtain ⟨hend, htokens, hfirst, hlast⟩ := Scan.finish_eq_ok_iff.1 hfinish
      obtain ⟨tokens, hread, hnames, hcontinues⟩ :=
        Scan.continues_of_foldlM hscan hend fun c hc => by contradiction
      obtain rfl : pattern.tokens = tokens := by
        rw [htokens, hread]
        simp
      exact ⟨⟨hfirst, hlast, hseparated, hnames⟩, hcontinues.of_closed⟩
  · rintro ⟨hwell, hspells⟩
    have hblank : ¬ source.toList.all isBlank = true := by
      intro hall
      obtain ⟨name, edge, hfirst⟩ := hwell.first
      rw [hspells.eq_nil (List.all_eq_true.1 hall)] at hfirst
      contradiction
    obtain ⟨scan, hscan, hend, htokens⟩ := @Scan.foldlM_of_spells _ _ hspells {} rfl
      hwell.names (by simpa using separated_reverse.2 hwell.separated)
    have hfinish : scan.finish = .ok pattern := by
      refine Scan.finish_eq_ok_iff.2 ⟨hend, ?_, hwell.first, hwell.last⟩
      rw [htokens]
      simp
    rw [compile, if_neg hblank]
    exact bind_eq_ok_iff.2 ⟨scan, hscan, hfinish⟩

/-- A text that is written for some tokens of a pattern. -/
def IsSource (source : String) (tokens : List Token) : Prop :=
  WellFormed tokens ∧ Spells tokens source.toList

theorem ofText_eq_ok_iff {source : String} {pattern : Pattern} :
    ofText source = .ok pattern ↔ IsSource source pattern.tokens := by
  rw [IsSource, ← compile_eq_ok_iff, ofText]
  cases compile source <;> simp [Except.mapError]

theorem ofText_eq_error_iff {source : String} :
    (∃ reason, ofText source = .error (.pattern source reason)) ↔
      ∀ tokens, ¬ IsSource source tokens := by
  constructor
  · rintro ⟨reason, hreason⟩ tokens htokens
    rw [(@ofText_eq_ok_iff source ⟨tokens⟩).2 htokens] at hreason
    contradiction
  · intro h
    cases hcompile : compile source with
    | error reason => exact ⟨reason, by rw [ofText, hcompile]; rfl⟩
    | ok pattern => exact absurd (compile_eq_ok_iff.1 hcompile) (h pattern.tokens)

/-- A text is read as a pattern exactly if it is written for the tokens of the pattern. It is
written for one token list at most, and where it is written for none, the fault names it. -/
theorem ofText_reads (source : String) :
    (∀ pattern, ofText source = .ok pattern ↔ IsSource source pattern.tokens) ∧
    (∀ tokens tokens', IsSource source tokens → IsSource source tokens' → tokens = tokens') ∧
    ((∃ reason, ofText source = .error (.pattern source reason)) ↔
      ∀ tokens, ¬ IsSource source tokens) := by
  refine ⟨fun _ => ofText_eq_ok_iff, fun tokens tokens' h h' => ?_, ofText_eq_error_iff⟩
  have hread : ofText source = .ok ⟨tokens⟩ := ofText_eq_ok_iff.2 h
  have hread' : ofText source = .ok ⟨tokens'⟩ := ofText_eq_ok_iff.2 h'
  cases hread.symm.trans hread'
  rfl

/-- Blanks around names and a mark after the wildcard: the inner blank stays. -/
theorem ofText_reads_spaced :
    IsSource "\u2003receive request + * - receive request - "
      [.named "receive request" .opening, .wildcard, .named "receive request" .closing] :=
  ((ofText_reads _).1 ⟨_⟩).1 (by decide +kernel)

end EventChains.Pattern
