import RoomAudio.Player.Application

/-!
# Texts inside of scripts

A script is read as plain code with string literals in it. Whatever the names are that a command
puts into its script, they stay inside of their literals: the script is read as the template of the
command, with one literal for each name.

## Main definitions

* `AppleScript.read` — the code and the literals of a script.
* `AppleScript.Alike` — pieces of scripts with the same code around their literals.
* `AppleScript.literals`, `AppleScript.SameForm` — the literals of a command's script, and the
  commands whose scripts differ in their literals only.
* `scripts_keep_their_form` — the scripts that are run are like that.
-/

namespace RoomAudio

namespace AppleScript

/-! ## Reading scripts -/

/-- What a script consists of: characters of its code, and the texts of literals. -/
inductive Token where
  | code (c : Char)
  | literal (text : String)
  deriving DecidableEq, Repr

inductive Position where
  | outside
  /-- In a literal of which `text` has been read. -/
  | inside (text : List Char)
  /-- In a literal, behind a backslash. -/
  | escaped (text : List Char)

/-- Reads a script. A literal begins and ends with a double quote, and a backslash makes the next
character of a literal stand for itself. A literal that does not end cannot be read. -/
def read : Position → List Char → Option (List Token)
  | .outside, [] => some []
  | .inside _, [] => none
  | .escaped _, [] => none
  | .outside, c :: rest =>
    if c = '"' then read (.inside []) rest else (read .outside rest).map (.code c :: ·)
  | .inside text, c :: rest =>
    if c = '"' then (read .outside rest).map (.literal (String.ofList text) :: ·)
    else if c = '\\' then read (.escaped text) rest
    else read (.inside (text ++ [c])) rest
  | .escaped text, c :: rest => read (.inside (text ++ [c])) rest

def literalsOf (tokens : List Token) : List String :=
  tokens.filterMap fun
    | .code _ => none
    | .literal text => some text

def codeOf (tokens : List Token) : List (Option Char) :=
  tokens.map fun
    | .code c => some c
    | .literal _ => none

/-- A script that can be read is read in the same way in front of any other. -/
theorem read_append {position : Position} {l : List Char} {tokens : List Token}
    (h : read position l = some tokens) (rest : List Char) :
    read position (l ++ rest) = (read .outside rest).map (tokens ++ ·) := by
  fun_induction read position l generalizing tokens with
  | case1 =>
    cases h
    simp
  | case2 => cases h
  | case3 => cases h
  | case4 l ih =>
    rw [List.cons_append, read, if_pos rfl]
    exact ih h
  | case5 c l notQuote ih =>
    obtain ⟨others, reads, rfl⟩ := Option.map_eq_some_iff.mp h
    rw [List.cons_append, read, if_neg notQuote, ih reads, Option.map_map]
    rfl
  | case6 text l ih =>
    obtain ⟨others, reads, rfl⟩ := Option.map_eq_some_iff.mp h
    rw [List.cons_append, read, if_pos rfl, ih reads, Option.map_map]
    rfl
  | case7 text l _ ih =>
    rw [List.cons_append, read, if_neg (by decide), if_pos rfl]
    exact ih h
  | case8 text c l notQuote notBackslash ih =>
    rw [List.cons_append, read, if_neg notQuote, if_neg notBackslash]
    exact ih h
  | case9 text c l ih => exact ih h

/-- Code without quotes is read as it stands. -/
theorem read_plain {l : List Char} (h : '"' ∉ l) : read .outside l = some (l.map .code) := by
  induction l with
  | nil => rfl
  | cons c l ih =>
    obtain ⟨plain, others⟩ : '"' ≠ c ∧ '"' ∉ l := by simpa using h
    simp [read, plain.symm, ih others]

def escaped (c : Char) : List Char := if c = '\\' ∨ c = '"' then ['\\', c] else [c]

/-- Escaping a text twice, the backslashes first, escapes its characters one by one. -/
theorem escape_escape (l : List Char) : escape '"' (escape '\\' l) = l.flatMap escaped := by
  induction l with
  | nil => rfl
  | cons c l ih =>
    simp only [escape] at ih ⊢
    rw [List.flatMap_cons, List.flatMap_cons, List.flatMap_append, ih]
    by_cases backslash : c = '\\'
    · simp [escaped, backslash]
    · by_cases quote : c = '"' <;> simp [escaped, backslash, quote]

/-- Inside of a literal, an escaped text is read as the text itself. -/
theorem read_escaped (text l : List Char) :
    read (.inside text) (l.flatMap escaped ++ ['"']) =
      some [.literal (String.ofList (text ++ l))] := by
  induction l generalizing text with
  | nil => simp [read]
  | cons c l ih =>
    have step : read (.inside text) (escaped c ++ (l.flatMap escaped ++ ['"'])) =
        read (.inside (text ++ [c])) (l.flatMap escaped ++ ['"']) := by
      unfold escaped
      split
      · simp [read]
      · rename_i plain
        obtain ⟨notBackslash, notQuote⟩ := not_or.mp plain
        simp [read, notBackslash, notQuote]
    rw [List.flatMap_cons, List.append_assoc, step, ih]
    simp

/-- A quoted text is read as one literal, which holds just that text. -/
theorem read_quote (s : String) : read .outside (quote s).toList = some [.literal s] := by
  have written : (quote s).toList = '"' :: (s.toList.flatMap escaped ++ ['"']) := by
    simp [quote, escape_escape]
  rw [written, read, if_pos rfl, read_escaped]
  simp

/-! ## Pieces of scripts -/

/-- Two pieces of scripts are read as the same code with literals in the same gaps. Those of the
first piece have the texts `texts` and those of the second one the texts `texts'`. -/
def Alike (texts texts' : List String) (piece piece' : String) : Prop :=
  ∃ tokens tokens', read .outside piece.toList = some tokens ∧
    read .outside piece'.toList = some tokens' ∧
    literalsOf tokens = texts ∧ literalsOf tokens' = texts' ∧ codeOf tokens = codeOf tokens'

namespace Alike

variable {texts texts' more more' : List String} {piece piece' next next' : String}

theorem refl (h : (read .outside piece.toList).map literalsOf = some texts) :
    Alike texts texts piece piece := by
  obtain ⟨tokens, reads, literals⟩ := Option.map_eq_some_iff.mp h
  exact ⟨tokens, tokens, reads, reads, literals, literals, rfl⟩

theorem plain (h : '"' ∉ piece.toList) : Alike [] [] piece piece := by
  refine refl ?_
  rw [read_plain h]
  simp [literalsOf]

theorem quote (s t : String) : Alike [s] [t] (quote s) (quote t) :=
  ⟨_, _, read_quote s, read_quote t, rfl, rfl, rfl⟩

/-- Pieces that are alike stay so when they are put together. -/
theorem append (h : Alike texts texts' piece piece') (h' : Alike more more' next next') :
    Alike (texts ++ more) (texts' ++ more') (piece ++ next) (piece' ++ next') := by
  obtain ⟨s, s', reads, reads', rfl, rfl, same⟩ := h
  obtain ⟨t, t', goes, goes', rfl, rfl, same'⟩ := h'
  refine ⟨s ++ t, s' ++ t', ?_, ?_, List.filterMap_append, List.filterMap_append, ?_⟩
  · rw [String.toList_append, read_append reads, goes]
    rfl
  · rw [String.toList_append, read_append reads', goes']
    rfl
  · unfold codeOf at *
    rw [List.map_append, List.map_append, same, same']

/-- Code may stand in front. -/
theorem behind (h : '"' ∉ next.toList) (alike : Alike texts texts' piece piece') :
    Alike texts texts' (next ++ piece) (next ++ piece') := (plain h).append alike

/-- Code may follow. -/
theorem followed (alike : Alike texts texts' piece piece') (h : '"' ∉ next.toList) :
    Alike texts texts' (piece ++ next) (piece' ++ next) := by
  simpa using alike.append (plain h)

/-- The literals of two lists stand between as many commas if there are as many of them. -/
theorem intercalate {names names' : List String} (h : names.length = names'.length) :
    Alike names names' (String.intercalate ", " (names.map AppleScript.quote))
      (String.intercalate ", " (names'.map AppleScript.quote)) := by
  have comma : Alike [] [] ", " ", " := plain (by decide)
  have split (name next : String) (others : List String) :
      String.intercalate ", " ((name :: next :: others).map AppleScript.quote) =
        AppleScript.quote name ++
          (", " ++ String.intercalate ", " ((next :: others).map AppleScript.quote)) := by
    simp [String.append_assoc]
  induction names generalizing names' with
  | nil =>
    obtain rfl := List.length_eq_zero_iff.mp h.symm
    exact refl rfl
  | cons name names ih =>
    obtain ⟨name', names', rfl⟩ := List.exists_cons_of_length_eq_add_one h.symm
    have others := ih (Nat.succ.inj h)
    cases names with
    | nil =>
      obtain rfl := List.length_eq_zero_iff.mp (Nat.succ.inj h).symm
      simpa using quote name name'
    | cons next names =>
      obtain ⟨next', names', rfl⟩ := List.exists_cons_of_length_eq_add_one (Nat.succ.inj h).symm
      rw [split, split]
      exact (quote name name').append (comma.append others)

end Alike

/-! ## The scripts of commands -/

def IsScripted : Command → Prop
  | .runShortcut _ => False
  | _ => True

/-- The literals in the script of a command: the texts that it is given, among those of its
template. -/
def literals : Command → List String
  | .setOutputs rooms => rooms ++ ["AirPlay device not found: "]
  | .setVolume room _ => [room]
  | .searchPlaylists query => ["", query]
  | .playlistName id => [id, ""]
  | .playPlaylist id => [id]
  | _ => []

def SameForm : Command → Command → Prop
  | .setOutputs rooms, .setOutputs rooms' => rooms.length = rooms'.length
  | .setVolume _ value, .setVolume _ value' => value = value'
  | .setShuffle enabled, .setShuffle enabled' => enabled = enabled'
  | .searchPlaylists _, .searchPlaylists _ => True
  | .playlistName _, .playlistName _ => True
  | .playPlaylist _, .playPlaylist _ => True
  | .playbackState, .playbackState => True
  | .stop, .stop => True
  | _, _ => False

/-- The bodies of commands of the same form differ in their literals only. -/
theorem alike_body {c d : Command} (same : SameForm c d) :
    Alike (literals c) (literals d) (body c) (body d) := by
  cases c <;> cases d
  case setOutputs.setOutputs rooms rooms' =>
    change Alike _ _ (selectOutputs rooms) (selectOutputs rooms')
    refine .followed (.followed (.followed (.append (.followed (.followed
      (.behind ?_ (.intercalate same)) ?_) ?_) (.refl ?_)) ?_) ?_) ?_
    all_goals decide +kernel
  case setVolume.setVolume room value room' value' =>
    cases same
    have digits : '"' ∉ (toString value).toList := by
      intro quoted
      rw [Nat.toString_eq_repr, Nat.toList_repr] at quoted
      exact absurd (Nat.isDigit_of_mem_toDigits (by decide) (by decide) quoted) (by decide)
    refine .followed (.followed (.behind ?_ (.quote room room')) ?_) digits
    all_goals decide +kernel
  case setShuffle.setShuffle enabled enabled' =>
    cases same
    cases enabled with
    | true => exact .plain (by decide +kernel)
    | false => exact .plain (by decide +kernel)
  case searchPlaylists.searchPlaylists query query' =>
    change Alike ([""] ++ [query]) ([""] ++ [query']) (listPlaylists query) (listPlaylists query')
    refine .followed (.followed (.followed (.followed (.followed
      (.append (.refl ?_) (.quote query query')) ?_) ?_) ?_) ?_) ?_
    all_goals decide +kernel
  case playlistName.playlistName id id' =>
    change Alike ([id] ++ [""]) ([id'] ++ [""]) (namePlaylist id) (namePlaylist id')
    refine .followed (.append (.followed (.behind ?_ (.quote id id')) ?_) (.refl ?_)) ?_
    all_goals decide +kernel
  case playPlaylist.playPlaylist id id' =>
    refine .followed (.behind ?_ (.quote id id')) ?_
    all_goals decide +kernel
  case playbackState.playbackState => exact .plain (by decide +kernel)
  case stop.stop => exact .plain (by decide +kernel)
  all_goals exact same.elim

/-- The scripts of commands of the same form differ in their literals only. -/
theorem alike_tell (a b : String) {c d : Command} (same : SameForm c d) :
    Alike (a :: literals c) (b :: literals d) (tell a (body c)) (tell b (body d)) := by
  refine .followed (.append (.followed (.behind ?_ (.quote a b)) ?_) (alike_body same)) ?_
  all_goals decide +kernel

theorem sameForm_refl {c : Command} (scripted : IsScripted c) : SameForm c c := by
  cases c with
  | runShortcut name => exact scripted.elim
  | setOutputs | setVolume | setShuffle => rfl
  | _ => trivial

theorem isScripted_of_sameForm {c d : Command} (same : SameForm c d) :
    IsScripted c ∧ IsScripted d := by
  constructor
  · cases c with
    | runShortcut name => cases d <;> exact same.elim
    | _ => trivial
  · cases d with
    | runShortcut name => cases c <;> exact same.elim
    | _ => trivial

end AppleScript

/-- These commands are given to the interpreter of scripts. -/
theorem Application.program_of_isScripted (a : Application) {c : Command}
    (scripted : AppleScript.IsScripted c) :
    a.program c = ("osascript", ["-e", AppleScript.tell a.name (AppleScript.body c)]) := by
  cases c with
  | runShortcut name => exact scripted.elim
  | _ => rfl

/-- The script that is run for a command is read with all its literals closed. Their texts are the
name of the application, those that the command was given and those of its template, in order; and
the code around them is the same for all commands of the same form and for all applications. -/
theorem scripts_keep_their_form :
    (∀ (a : Application) (c : Command), AppleScript.IsScripted c → ∃ script tokens,
      a.program c = ("osascript", ["-e", script]) ∧
      AppleScript.read .outside script.toList = some tokens ∧
      AppleScript.literalsOf tokens = a.name :: AppleScript.literals c) ∧
    ∀ (a b : Application) (c d : Command), AppleScript.SameForm c d → ∃ script script' code,
      a.program c = ("osascript", ["-e", script]) ∧ b.program d = ("osascript", ["-e", script']) ∧
      (AppleScript.read .outside script.toList).map AppleScript.codeOf = some code ∧
      (AppleScript.read .outside script'.toList).map AppleScript.codeOf = some code := by
  refine ⟨fun a c scripted => ?_, fun a b c d same => ?_⟩
  · obtain ⟨tokens, -, reads, -, literals, -⟩ :=
      AppleScript.alike_tell a.name a.name (AppleScript.sameForm_refl scripted)
    exact ⟨_, tokens, a.program_of_isScripted scripted, reads, literals⟩
  · obtain ⟨tokens, tokens', reads, reads', -, -, code⟩ := AppleScript.alike_tell a.name b.name same
    obtain ⟨scripted, scripted'⟩ := AppleScript.isScripted_of_sameForm same
    refine ⟨_, _, AppleScript.codeOf tokens, a.program_of_isScripted scripted,
      b.program_of_isScripted scripted', ?_, ?_⟩
    · rw [reads, Option.map_some]
    · rw [reads', Option.map_some, code]

/-- Names that look like the end of a literal and like a list of two, in place of plain ones. -/
theorem scripts_keep_their_form_rooms :
    AppleScript.IsScripted (.setOutputs ["\\", "\", \""]) ∧
    (∃ script tokens,
      Application.program { name := "Mu\"sic" } (.setOutputs ["\\", "\", \""]) =
        ("osascript", ["-e", script]) ∧
      AppleScript.read .outside script.toList = some tokens ∧
      AppleScript.literalsOf tokens = ["Mu\"sic", "\\", "\", \"", "AirPlay device not found: "]) ∧
    AppleScript.SameForm (.setOutputs ["\\", "\", \""]) (.setOutputs ["Den", "Bad"]) ∧
    ∃ script script' code,
      Application.program { name := "Mu\"sic" } (.setOutputs ["\\", "\", \""]) =
        ("osascript", ["-e", script]) ∧
      Application.program { name := "Music" } (.setOutputs ["Den", "Bad"]) =
        ("osascript", ["-e", script']) ∧
      (AppleScript.read .outside script.toList).map AppleScript.codeOf = some code ∧
      (AppleScript.read .outside script'.toList).map AppleScript.codeOf = some code :=
  ⟨trivial, scripts_keep_their_form.1 _ _ trivial, rfl, scripts_keep_their_form.2 _ _ _ _ rfl⟩

end RoomAudio
