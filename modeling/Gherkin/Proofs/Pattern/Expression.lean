import Gherkin.Proofs.Pattern.Groups

/-!
Contract: what a pattern's regular expression means, and that matching agrees with it.

Owns: expressions as trees and the text in which one is written, the ways in which one
matches the start of a text with the capture groups of each, and the tree of a pattern.
Does not own: the search by a table (`Gherkin.Pattern.Matching`), and how arguments are read
off groups (`Gherkin.Proofs.Pattern.Groups`).
Main statement: `Pattern.matchGroups?_eq_search`.

Ways stand in the order in which a search that goes back to its last choice finds them: those
of the first alternative before those of the second, and more repetitions before fewer. A
pattern's expression is bound to both ends of a text, so the first way is the match.
-/

set_option autoImplicit false

namespace Gherkin

/-! ## Expressions -/

inductive CharClass where
  | notQuote
  | notBlank
  | digit
deriving DecidableEq, Repr

namespace CharClass

def text : CharClass → List Char
  | .notQuote => ['[', '^', '"', ']']
  | .notBlank => ['\\', 'S']
  | .digit => ['\\', 'd']

def holds : CharClass → Char → Bool
  | .notQuote, c => c != '"'
  | .notBlank, c => !Text.isBlank c
  | .digit, c => Text.isDecimalDigit c

end CharClass

/-- An expression behind the anchor at the start of a text. -/
inductive Regex where
  | atEnd
  | char (c : Char)
  /-- Any number of characters of a class. -/
  | star (characters : CharClass)
  /-- One or more characters of a class. -/
  | plus (characters : CharClass)
  /-- A capture group. -/
  | group (body : Regex)
  | seq (first second : Regex)
  | choice (first second : Regex)
deriving DecidableEq, Repr

/-- A way to match the start of a text: what is matched, what the groups hold, in the order
in which they open, and what is left over. -/
structure Way where
  matched : List Char
  groups : List (Option (List Char))
  rest : List Char
deriving DecidableEq, Repr

namespace Way

/-- A way with another one behind it. -/
def followedBy (first second : Way) : Way :=
  ⟨first.matched ++ second.matched, first.groups ++ second.groups, second.rest⟩

/-- What counts for those that come behind. -/
def outline (way : Way) : List (Option (List Char)) × List Char :=
  (way.groups, way.rest)

end Way

namespace Regex

def text : Regex → List Char
  | .atEnd => ['$']
  | .char c => if c ∈ Piece.escapedLiterals then ['\\', c] else [c]
  | .star characters => characters.text ++ ['*']
  | .plus characters => characters.text ++ ['+']
  | .group body => '(' :: (body.text ++ [')'])
  | .seq first second => first.text ++ second.text
  | .choice first second => ['(', '?', ':'] ++ first.text ++ '|' :: (second.text ++ [')'])

def groupCount : Regex → Nat
  | .atEnd | .char _ | .star _ | .plus _ => 0
  | .group body => body.groupCount + 1
  | .seq first second | .choice first second => first.groupCount + second.groupCount

/-- The stretches of a class at the start of a text, the longest one first and the empty one
last, each with what follows it. -/
def stretches (inClass : Char → Bool) : List Char → List (List Char × List Char)
  | [] => [([], [])]
  | c :: cs =>
      (if inClass c then (stretches inClass cs).map fun (stretch, rest) => (c :: stretch, rest)
        else []) ++ [([], c :: cs)]

/-- The ways in which an expression matches the start of a text, in the order in which they
are tried. A group that takes no part in a way holds nothing. -/
def ways : Regex → List Char → List Way
  | .atEnd, cs => if cs.isEmpty then [⟨[], [], []⟩] else []
  | .char c, cs =>
      match cs with
      | [] => []
      | c' :: rest => if c' = c then [⟨[c], [], rest⟩] else []
  | .star characters, cs =>
      (stretches characters.holds cs).map fun (stretch, rest) => ⟨stretch, [], rest⟩
  | .plus characters, cs =>
      match cs with
      | [] => []
      | c :: cs =>
          if characters.holds c then
            (stretches characters.holds cs).map fun (stretch, rest) => ⟨c :: stretch, [], rest⟩
          else []
  | .group body, cs =>
      (ways body cs).map fun way => { way with groups := some way.matched :: way.groups }
  | .seq first second, cs =>
      (ways first cs).flatMap fun way => (ways second way.rest).map way.followedBy
  | .choice first second, cs =>
      ((ways first cs).map fun way =>
        { way with groups := way.groups ++ List.replicate second.groupCount none }) ++
      (ways second cs).map fun way =>
        { way with groups := List.replicate first.groupCount none ++ way.groups }

/-! The same equations, to unfold one expression and not those inside it. -/

theorem ways_star (characters : CharClass) (cs : List Char) :
    ways (.star characters) cs =
      (stretches characters.holds cs).map fun stretch => ⟨stretch.1, [], stretch.2⟩ :=
  rfl

theorem ways_group (body : Regex) (cs : List Char) :
    ways (.group body) cs =
      (ways body cs).map fun way => { way with groups := some way.matched :: way.groups } :=
  rfl

theorem ways_seq (first second : Regex) (cs : List Char) :
    ways (.seq first second) cs =
      (ways first cs).flatMap fun way => (ways second way.rest).map way.followedBy :=
  rfl

/-- All groups behind a match, the whole match as the first of them: those of the first
way. -/
def search (regex : Regex) (cs : List Char) : Option (List (Option (List Char))) :=
  (regex.ways cs).head?.map fun way => some way.matched :: way.groups

/-! ## Ways -/

theorem append_of_mem_stretches
    {inClass : Char → Bool} {cs : List Char} {stretch : List Char × List Char}
    (member : stretch ∈ stretches inClass cs) : stretch.1 ++ stretch.2 = cs := by
  induction cs generalizing stretch with
  | nil =>
      obtain rfl := List.mem_singleton.mp member
      rfl
  | cons c cs inductionHypothesis =>
      rw [stretches] at member
      rcases List.mem_append.mp member with longer | empty
      · split at longer
        · obtain ⟨shorter, isShorter, rfl⟩ := List.mem_map.mp longer
          exact congrArg (c :: ·) (inductionHypothesis isShorter)
        · exact absurd longer List.not_mem_nil
      · obtain rfl := List.mem_singleton.mp empty
        rfl

/-- A way cuts the text in two, and has a place for each group. -/
theorem cuts_of_mem_ways
    {regex : Regex} {cs : List Char} {way : Way} (member : way ∈ regex.ways cs) :
    way.matched ++ way.rest = cs ∧ way.groups.length = regex.groupCount := by
  induction regex generalizing cs way with
  | atEnd =>
      simp only [ways] at member
      split at member
      · next isEnd =>
          obtain rfl := List.mem_singleton.mp member
          exact ⟨(List.isEmpty_iff.mp isEnd).symm, rfl⟩
      · exact absurd member List.not_mem_nil
  | char c =>
      cases cs with
      | nil => exact absurd member List.not_mem_nil
      | cons c' cs =>
          simp only [ways] at member
          split at member
          · next same =>
              obtain rfl := List.mem_singleton.mp member
              exact ⟨congrArg (· :: cs) same.symm, rfl⟩
          · exact absurd member List.not_mem_nil
  | star characters =>
      obtain ⟨stretch, isStretch, rfl⟩ := List.mem_map.mp member
      exact ⟨append_of_mem_stretches isStretch, rfl⟩
  | plus characters =>
      cases cs with
      | nil => exact absurd member List.not_mem_nil
      | cons c cs =>
          simp only [ways] at member
          split at member
          · obtain ⟨stretch, isStretch, rfl⟩ := List.mem_map.mp member
            exact ⟨congrArg (c :: ·) (append_of_mem_stretches isStretch), rfl⟩
          · exact absurd member List.not_mem_nil
  | group body inductionHypothesis =>
      obtain ⟨inner, isInner, rfl⟩ := List.mem_map.mp member
      obtain ⟨whole, count⟩ := inductionHypothesis isInner
      exact ⟨whole, congrArg (· + 1) count⟩
  | seq first second firstHypothesis secondHypothesis =>
      obtain ⟨before, isBefore, later⟩ := List.mem_flatMap.mp member
      obtain ⟨behind, isBehind, rfl⟩ := List.mem_map.mp later
      obtain ⟨whole, count⟩ := firstHypothesis isBefore
      obtain ⟨wholeBehind, countBehind⟩ := secondHypothesis isBehind
      rw [← wholeBehind, ← List.append_assoc] at whole
      refine ⟨whole, ?_⟩
      show (before.groups ++ behind.groups).length = _
      rw [List.length_append, count, countBehind, groupCount]
  | choice first second firstHypothesis secondHypothesis =>
      rcases List.mem_append.mp member with isFirst | isSecond
      · obtain ⟨inner, isInner, rfl⟩ := List.mem_map.mp isFirst
        obtain ⟨whole, count⟩ := firstHypothesis isInner
        exact ⟨whole, by simp [groupCount, count]⟩
      · obtain ⟨inner, isInner, rfl⟩ := List.mem_map.mp isSecond
        obtain ⟨whole, count⟩ := secondHypothesis isInner
        exact ⟨whole, by simp [groupCount, count]⟩

/-- The first way of a sequence goes on from the first way of its front that can be gone on
from. -/
theorem head?_ways_seq (first second : Regex) (cs : List Char) :
    (ways (.seq first second) cs).head?.map Way.outline =
      ((ways first cs).map Way.outline).findSome? fun front =>
        ((ways second front.2).head?.map Way.outline).map fun back =>
          (front.1 ++ back.1, back.2) := by
  rw [ways_seq, List.head?_flatMap, List.findSome?_map]
  induction ways first cs with
  | nil => rfl
  | cons way others inductionHypothesis =>
      rw [List.findSome?_cons, List.findSome?_cons, List.head?_map, Function.comp_apply]
      cases leads : (ways second way.rest).head? with
      | none =>
          have stuck : (ways second way.outline.2).head? = none := leads
          rw [stuck]
          exact inductionHypothesis
      | some behind =>
          have goesOn : (ways second way.outline.2).head? = some behind := leads
          rw [goesOn]
          rfl

/-! ## Runs and quotations -/

theorem stretches_eq_runs (inClass : Char → Bool) (cs : List Char) :
    stretches inClass cs = Matching.runs inClass cs ++ [([], cs)] := by
  induction cs with
  | nil => rfl
  | cons c cs inductionHypothesis =>
      rw [stretches, Matching.runs, inductionHypothesis]
      split
      · simp
      · rfl

theorem ways_plus (characters : CharClass) (cs : List Char) :
    ways (.plus characters) cs =
      (Matching.runs characters.holds cs).map fun (run, rest) => ⟨run, [], rest⟩ := by
  cases cs with
  | nil => rfl
  | cons c cs =>
      rw [ways, Matching.runs, stretches_eq_runs]
      split
      · simp
      · rfl

/-- Only behind the longest stretch without quotes there may be a quote. -/
theorem stretches_before_quote (cs : List Char) :
    ((stretches CharClass.notQuote.holds cs).flatMap fun (inside, rest) =>
        (ways (.char '"') rest).map fun way => (inside, way.rest)) =
      (Text.cutAt? '"' cs).toList := by
  induction cs with
  | nil => rfl
  | cons c cs inductionHypothesis =>
      rw [stretches, List.flatMap_append, Text.cutAt?]
      by_cases quote : c = '"'
      · simp [CharClass.holds, ways, quote]
      · have longer := congrArg (List.map fun cut : List Char × List Char => (c :: cut.1, cut.2))
          inductionHypothesis
        rw [List.map_flatMap] at longer
        simp only [CharClass.holds, bne_iff_ne, ne_eq, quote, not_false_eq_true, if_true,
          if_false, List.flatMap_map, List.flatMap_singleton]
        simp only [List.map_map, Function.comp_def] at longer
        rw [longer]
        cases Text.cutAt? '"' cs <;> simp [ways, quote]

/-- A quoted text whose inside is captured. -/
def quoted : Regex :=
  .seq (.char '"') (.seq (.group (.star .notQuote)) (.char '"'))

theorem groups_of_mem_ways_char
    {c : Char} {cs : List Char} {way : Way} (member : way ∈ ways (.char c) cs) :
    way.groups = [] := by
  cases cs with
  | nil => exact absurd member List.not_mem_nil
  | cons c' cs =>
      simp only [ways] at member
      split at member
      · obtain rfl := List.mem_singleton.mp member
        rfl
      · exact absurd member List.not_mem_nil

theorem ways_quoted (cs : List Char) :
    (ways quoted cs).map Way.outline =
      (Matching.quotation? cs).toList.map fun (inside, rest) => ([some inside], rest) := by
  cases cs with
  | nil => rfl
  | cons c cs =>
      by_cases quote : c = '"'
      · subst quote
        show _ = (Text.cutAt? '"' cs).toList.map _
        have closed : ∀ inside rest : List Char,
            (ways (.char '"') rest).map (fun way => (some inside :: way.groups, way.rest)) =
              (ways (.char '"') rest).map fun way => ([some inside], way.rest) := by
          intro inside rest
          apply List.map_congr_left
          intro way member
          rw [groups_of_mem_ways_char member]
        rw [← stretches_before_quote cs]
        have opened : ways (.char '"') ('"' :: cs) = [⟨['"'], [], cs⟩] := rfl
        simp [quoted, ways_seq, ways_group, ways_star, opened, List.map_flatMap,
          List.flatMap_map, Way.followedBy, Way.outline, Function.comp_def, closed]
      · simp [quoted, ways_seq, ways, Matching.quotation?, quote]

end Regex

/-! ## Placeholders -/

namespace Placeholder

def regex : StringMode → Placeholder → Regex
  | .strict, .string => .quoted
  | .lenient, .string => .choice .quoted (.group (.plus .notBlank))
  | _, .int => .group (.plus .digit)
  | _, .word => .group (.plus .notBlank)

theorem text_regex (mode : StringMode) (placeholder : Placeholder) :
    (placeholder.regex mode).text = (placeholder.expression mode).toList := by
  cases mode <;> cases placeholder <;> decide

theorem groupCount_regex (mode : StringMode) (placeholder : Placeholder) :
    (placeholder.regex mode).groupCount = placeholder.groups mode := by
  cases mode <;> cases placeholder <;> rfl

/-- The ways of a placeholder's expression are the parts that the placeholder may match, and
the groups hold what the part is read from. -/
theorem ways_regex (mode : StringMode) (placeholder : Placeholder) (cs : List Char) :
    ((placeholder.regex mode).ways cs).map Way.outline =
      (Matching.parts mode placeholder cs).map fun (part, rest) =>
        (placeholder.contents mode part, rest) := by
  have run (characters : CharClass) :
      ((Regex.group (.plus characters)).ways cs).map Way.outline =
        (Matching.runs characters.holds cs).map fun (run, rest) => ([some run], rest) := by
    rw [Regex.ways, Regex.ways_plus, List.map_map, List.map_map]
    rfl
  cases placeholder with
  | string =>
      cases mode with
      | strict =>
          rw [regex, Regex.ways_quoted, Matching.parts, Matching.quotations, List.map_map]
          rfl
      | lenient =>
          have quotations := congrArg
            (List.map fun outline : List (Option (List Char)) × List Char =>
              (outline.1 ++ [none], outline.2)) (Regex.ways_quoted cs)
          have runs := congrArg
            (List.map fun outline : List (Option (List Char)) × List Char =>
              (none :: outline.1, outline.2)) (run .notBlank)
          rw [List.map_map, List.map_map] at quotations runs
          rw [regex, Regex.ways, List.map_append, List.map_map, List.map_map, Matching.parts,
            Matching.quotations, Matching.runParts, List.map_append, List.map_map, List.map_map]
          exact congrArg₂ (· ++ ·) quotations runs
  | int =>
      cases mode <;>
        rw [regex, run, Matching.parts, Matching.runParts, List.map_map] <;>
        rfl
  | word =>
      cases mode <;>
        rw [regex, run, Matching.parts, Matching.runParts, List.map_map] <;>
        rfl

end Placeholder

/-! ## Patterns -/

def Piece.regex (mode : StringMode) : Piece → Regex
  | .literal c => .char c
  | .hole placeholder => placeholder.regex mode

/-- The pieces one after the other, and then the end of the text. -/
def Regex.ofPieces (mode : StringMode) : List Piece → Regex
  | [] => .atEnd
  | piece :: pieces => .seq (piece.regex mode) (ofPieces mode pieces)

theorem Regex.text_ofPieces (mode : StringMode) (pieces : List Piece) :
    (ofPieces mode pieces).text = pieces.flatMap (Piece.expression mode) ++ ['$'] := by
  induction pieces with
  | nil => rfl
  | cons piece pieces inductionHypothesis =>
      rw [ofPieces, text, inductionHypothesis, List.flatMap_cons, List.append_assoc]
      congr 1
      cases piece with
      | literal c => rfl
      | hole placeholder => exact placeholder.text_regex mode

theorem Regex.groupCount_ofPieces (mode : StringMode) (pieces : List Piece) :
    (ofPieces mode pieces).groupCount =
      Placeholder.groupsOf mode (pieces.filterMap Piece.placeholder?) := by
  induction pieces with
  | nil => rfl
  | cons piece pieces inductionHypothesis =>
      rw [ofPieces, groupCount, inductionHypothesis]
      cases piece with
      | literal c => exact Nat.zero_add _
      | hole placeholder =>
          rw [Piece.regex, placeholder.groupCount_regex]
          rfl

/-- What the groups of some placeholders hold when they stand for these parts. -/
def heldBy (mode : StringMode) (placeholders : List Placeholder) (parts : List Part) :
    List (Option (List Char)) :=
  (List.zipWith (Placeholder.contents mode) placeholders parts).flatten

/-- The first way is the preferred one: each piece chooses before those behind it. -/
theorem Regex.head?_ways_ofPieces (mode : StringMode) (pieces : List Piece) (cs : List Char) :
    ((ofPieces mode pieces).ways cs).head?.map Way.outline =
      (Matching.preferred? mode pieces cs).map fun parts =>
        (heldBy mode (pieces.filterMap Piece.placeholder?) parts, []) := by
  induction pieces generalizing cs with
  | nil => cases cs <;> rfl
  | cons piece pieces inductionHypothesis =>
      rw [ofPieces, head?_ways_seq]
      cases piece with
      | literal c =>
          cases cs with
          | nil => rfl
          | cons c' cs =>
              rw [Piece.regex, ways, Matching.preferred?]
              by_cases same : c' = c
              · simp only [same, if_true, List.map_singleton, Way.outline, List.findSome?_cons,
                  inductionHypothesis cs, List.findSome?_nil]
                cases Matching.preferred? mode pieces cs <;> rfl
              · simp [same]
      | hole placeholder =>
          rw [Piece.regex, Placeholder.ways_regex, List.findSome?_map, Matching.preferred?_hole]
          induction Matching.parts mode placeholder cs with
          | nil => rfl
          | cons choice others othersHypothesis =>
              rw [List.findSome?_cons, List.findSome?_cons]
              simp only [Function.comp, inductionHypothesis choice.2]
              cases Matching.preferred? mode pieces choice.2 with
              | none => simpa using othersHypothesis
              | some parts => rfl

namespace Pattern

def regex (pattern : Pattern) : Regex :=
  .ofPieces pattern.mode pattern.pieces

/-- The expression is the text of the tree behind the anchor at the start. -/
theorem expression_eq_text (pattern : Pattern) :
    pattern.expression.toList = '^' :: pattern.regex.text := by
  rw [expression, String.toList_ofList, regex, Regex.text_ofPieces]

/-- The groups of a match are those that a search with the expression finds. -/
theorem matchGroups?_eq_search (pattern : Pattern) (subject : String) :
    pattern.matchGroups? subject = pattern.regex.search subject.toList := by
  have outlines := Regex.head?_ways_ofPieces pattern.mode pattern.pieces subject.toList
  rw [matchGroups?, Regex.search, Matching.match?_eq_preferred?, regex]
  cases first : ((Regex.ofPieces pattern.mode pattern.pieces).ways subject.toList).head? with
  | none =>
      rw [first] at outlines
      rw [Option.map_eq_none_iff.mp outlines.symm]
      rfl
  | some way =>
      rw [first] at outlines
      obtain ⟨parts, found, isOutline⟩ := Option.map_eq_some_iff.mp outlines.symm
      obtain ⟨held, finished⟩ := Prod.mk.inj isOutline
      have whole := (Regex.cuts_of_mem_ways (List.mem_of_head? first)).1
      rw [← finished, List.append_nil] at whole
      rw [found, Option.map_some, Option.map_some, whole, ← held]
      rfl

/-- A match has one place for each group that opens in the expression, and one for itself. -/
theorem length_of_matchGroups?
    {pattern : Pattern} {subject : String} {groups : List (Option (List Char))}
    (found : pattern.matchGroups? subject = some groups) :
    groups.length = (Expression.openings false 0 pattern.expression.toList).length + 1 := by
  rw [matchGroups?_eq_search, Regex.search] at found
  obtain ⟨way, first, rfl⟩ := Option.map_eq_some_iff.mp found
  have count := (Regex.cuts_of_mem_ways (List.mem_of_head? first)).2
  rw [List.length_cons, count, regex, Regex.groupCount_ofPieces, pattern.readsByGroup.count]
  rfl

/-- So the arguments are what is read off the groups that the search finds. -/
theorem captures?_eq_search (pattern : Pattern) (subject : String) :
    pattern.captures? subject =
      (pattern.regex.search subject.toList).bind fun groups =>
        readArguments pattern.mode (fun number => groups[number]?.join) 1
          pattern.placeholders := by
  rw [captures?_eq_readArguments, matchGroups?_eq_search]

end Pattern

end Gherkin
