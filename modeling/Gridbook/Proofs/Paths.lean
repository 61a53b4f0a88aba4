import Gridbook.File.Path
import Gridbook.Proofs.Runs
import Gridbook.Text.Offset

/-!
Paths and their pieces. A path is its start and the pieces behind it, and it makes one move for each piece that is not
empty. Taking off the last piece and joining it again drops only pieces before it that lead nowhere (`rejoin`); a longer
last piece changes the last move alone.
-/
namespace Gridbook

namespace Text

variable {sep : List Char} {a b : List (List Char)}

theorem intercalate_append (first : a ≠ []) (second : b ≠ []) :
    sep.intercalate (a ++ b) = sep.intercalate a ++ sep ++ sep.intercalate b := by
  induction a with
  | nil => exact absurd rfl first
  | cons piece a ih =>
    cases a with
    | nil => simp [List.intercalate_cons_of_ne_nil second]
    | cons next a =>
      have further := ih (by simp)
      simp only [List.cons_append] at further
      simp [List.intercalate_cons_cons, further]

theorem intercalate_initial (initial : a <+: b) : sep.intercalate a <+: sep.intercalate b := by
  obtain ⟨more, rfl⟩ := initial
  by_cases first : a = []
  · simp [first]
  · by_cases second : more = []
    · simp [second]
    · rw [intercalate_append first second, List.append_assoc]
      exact List.prefix_append _ _

theorem not_mem_of_mem_splitOn {c : Char} {cs piece : List Char} (inside : piece ∈ cs.splitOn c) : c ∉ piece := by
  induction cs generalizing piece with
  | nil => simp_all
  | cons d cs ih =>
    rw [List.splitOn_cons_eq_if_modifyHead] at inside
    cases parts : cs.splitOn c with
    | nil => exact absurd parts (List.splitOn_ne_nil _ _)
    | cons first rest =>
      rw [parts] at inside ih
      by_cases same : d = c
      · simp only [same, beq_self_eq_true, if_true, List.mem_cons] at inside
        rcases inside with rfl | later
        · simp
        · exact ih (by simpa using later)
      · simp only [beq_iff_eq, same, if_false, List.modifyHead_cons, List.mem_cons] at inside
        rcases inside with rfl | later
        · simp [Ne.symm same, ih (List.mem_cons_self ..)]
        · exact ih (List.mem_cons_of_mem _ later)

theorem head?_splitOn (c : Char) (cs : List Char) : (cs.splitOn c).head? = some (cs.takeWhile (· != c)) := by
  induction cs with
  | nil => rfl
  | cons d cs ih =>
    rw [List.splitOn_cons_eq_if_modifyHead]
    by_cases same : d = c
    · simp [same]
    · obtain ⟨rest, parts⟩ := List.head?_eq_some_iff.1 ih
      simp [same, parts]

theorem width_le_of_sublist {a b : List Char} (part : a.Sublist b) : width a ≤ width b := by
  induction part with
  | slnil => exact Nat.le_refl _
  | cons c _ ih => exact Nat.le_trans ih (Nat.le_add_left ..)
  | cons_cons c _ ih => exact Nat.add_le_add_left ih _

end Text

namespace Path

open Text

theorem splitAtSlashes_eq (cs : List Char) : splitAtSlashes cs = cs.splitOn '/' := by
  induction cs with
  | nil => rfl
  | cons c cs ih =>
    rw [splitAtSlashes, List.splitOn_cons_eq_if_modifyHead, ih]
    cases parts : cs.splitOn '/' with
    | nil => exact absurd parts (List.splitOn_ne_nil _ _)
    | cons piece pieces => by_cases slash : c = '/' <;> simp [slash]

def move? (piece : List Char) : Option PathStep :=
  if piece.isEmpty then none
  else if piece = ['.'] then some .here
  else if piece = ['.', '.'] then some .up
  else some (.into (String.ofList piece))

def moves (pieces : List (List Char)) : List PathStep := pieces.filterMap move?

theorem moves_append (a b : List (List Char)) : moves (a ++ b) = moves a ++ moves b := List.filterMap_append ..

theorem steps_eq (path : Path) : path.steps = moves (path.text.toList.splitOn '/') := by
  rw [← splitAtSlashes_eq]
  rfl

def lead (start : List Char) : List PathStep := if start = ['.'] then [.here] else []

/-- The pieces are parted by slashes, and behind a dot comes a slash. -/
structure Begins (start : List Char) (pieces : List (List Char)) : Prop where
  free : ∀ piece ∈ pieces, '/' ∉ piece
  start : start = ['/'] ∨ (start = ['.'] ∧ ∀ piece ∈ pieces.head?, piece = []) ∨ start = []

theorem Begins.of_prefix {start : List Char} {front pieces : List (List Char)} (begins : Begins start pieces)
    (initial : front <+: pieces) : Begins start front := by
  obtain ⟨rest, rfl⟩ := initial
  refine ⟨fun piece inside => begins.free piece (List.mem_append_left _ inside), ?_⟩
  rcases begins.start with root | ⟨dot, first⟩ | bare
  · exact .inl root
  · refine .inr (.inl ⟨dot, fun piece inside => first piece ?_⟩)
    cases front <;> simp_all
  · exact .inr (.inr bare)

theorem moves_splitOn_intercalate {pieces : List (List Char)} (free : ∀ piece ∈ pieces, '/' ∉ piece) :
    moves ((['/'].intercalate pieces).splitOn '/') = moves pieces := by
  by_cases empty : pieces = []
  · rw [empty]
    rfl
  · rw [List.splitOn_intercalate '/' free empty]

theorem steps_ofPieces {start : List Char} {pieces : List (List Char)} (begins : Begins start pieces) :
    (ofPieces start pieces).steps = lead start ++ moves pieces := by
  have behind := moves_splitOn_intercalate begins.free
  rw [steps_eq, ofPieces, String.toList_ofList]
  rcases begins.start with rfl | ⟨rfl, first⟩ | rfl
  · rw [List.singleton_append, List.splitOn_cons_eq_if_modifyHead]
    exact behind
  · -- Behind the dot, the empty first piece puts a slash before the others.
    rcases pieces with _ | ⟨piece, _ | ⟨next, pieces⟩⟩
    · rfl
    · obtain rfl := first piece rfl
      rfl
    · obtain rfl := first piece rfl
      have free : ∀ piece ∈ next :: pieces, '/' ∉ piece := fun piece inside =>
        begins.free piece (List.mem_cons_of_mem _ inside)
      change moves ((['.'] ++ '/' :: ['/'].intercalate (next :: pieces)).splitOn '/') = _
      rw [List.splitOn_append_cons_self_of_not_mem (by decide)]
      exact congrArg (PathStep.here :: ·) (moves_splitOn_intercalate free)
  · exact behind

/-- The first piece of a path that starts with neither a slash nor a dot of its own is not idle. -/
theorem not_isIdle_head {cs : List Char} (filled : cs ≠ []) (root : ∀ rest, cs ≠ '/' :: rest) (dot : cs ≠ ['.'])
    (below : ∀ rest, cs ≠ '.' :: '/' :: rest) : isIdle (cs.takeWhile (· != '/')) = false := by
  rcases cs with _ | ⟨c, _ | ⟨d, cs⟩⟩
  · exact absurd rfl filled
  · have slash : c ≠ '/' := fun same => root [] (by rw [same])
    have dot : c ≠ '.' := fun same => dot (by rw [same])
    simp [isIdle, slash, dot]
  · have slash : c ≠ '/' := fun same => root (d :: cs) (by rw [same])
    by_cases same : c = '.'
    · have further : d ≠ '/' := fun equal => below cs (by rw [same, equal])
      simp [isIdle, slash, further]
    · simp [isIdle, slash, same]

theorem split_cases (path : Path) :
    (∃ cs, path.text.toList = '/' :: cs ∧ path.split = (['/'], cs.splitOn '/')) ∨
    (path.text.toList = ['.'] ∧ path.split = (['.'], [])) ∨
    (∃ cs, path.text.toList = '.' :: '/' :: cs ∧ path.split = (['.'], [] :: cs.splitOn '/')) ∨
    (path.split = ([], path.text.toList.splitOn '/') ∧
      (path.text.toList ≠ [] → isIdle (path.text.toList.takeWhile (· != '/')) = false)) := by
  unfold split
  split
  · next cs text => exact .inl ⟨cs, text, by rw [splitAtSlashes_eq]⟩
  · next text => exact .inr (.inl ⟨text, rfl⟩)
  · next cs text =>
    have behind : splitAtSlashes ('/' :: cs) = [] :: cs.splitOn '/' := by
      rw [splitAtSlashes_eq, List.splitOn_cons_eq_if_modifyHead]
      rfl
    exact .inr (.inr (.inl ⟨cs, text, by rw [behind]⟩))
  · next root dot below =>
    exact .inr (.inr (.inr ⟨by rw [splitAtSlashes_eq], fun filled => not_isIdle_head filled root dot below⟩))

theorem ofPieces_split (path : Path) : ofPieces path.split.1 path.split.2 = path := by
  have same : (ofPieces path.split.1 path.split.2).text.toList = path.text.toList := by
    rw [ofPieces, String.toList_ofList]
    rcases path.split_cases with ⟨cs, text, parts⟩ | ⟨text, parts⟩ | ⟨cs, text, parts⟩ | ⟨parts, -⟩
    · simp [parts, text, List.intercalate_splitOn]
    · simp [parts, text]
    · simp [parts, text, List.intercalate_cons_of_ne_nil, List.splitOn_ne_nil, List.intercalate_splitOn]
    · simp [parts, List.intercalate_splitOn]
  exact congrArg Path.mk (String.toList_inj.1 same)

theorem begins_split (path : Path) : Begins path.split.1 path.split.2 := by
  rcases path.split_cases with ⟨cs, -, parts⟩ | ⟨-, parts⟩ | ⟨cs, -, parts⟩ | ⟨parts, -⟩
  · rw [parts]
    exact ⟨fun piece => not_mem_of_mem_splitOn, .inl rfl⟩
  · rw [parts]
    exact ⟨by simp, .inr (.inl ⟨rfl, by simp⟩)⟩
  · rw [parts]
    refine ⟨?_, .inr (.inl ⟨rfl, by simp⟩)⟩
    rintro piece (_ | ⟨_, inside⟩)
    · simp
    · exact not_mem_of_mem_splitOn inside
  · rw [parts]
    exact ⟨fun piece => not_mem_of_mem_splitOn, .inr (.inr rfl)⟩

theorem steps_split (path : Path) : path.steps = lead path.split.1 ++ moves path.split.2 := by
  rw [← steps_ofPieces path.begins_split, ofPieces_split]

theorem trimPieces_append (pieces : List (List Char)) :
    ∃ idle, pieces = trimPieces pieces ++ idle ∧ ∀ piece ∈ idle, isIdle piece = true :=
  ⟨pieces.rtakeWhile isIdle, (List.rdropWhile_append_rtakeWhile (p := isIdle)).symm, fun _ => List.mem_rtakeWhile_imp⟩

theorem trimPieces_concat (pieces : List (List Char)) {name : List Char} (busy : isIdle name = false) :
    trimPieces (pieces ++ [name]) = pieces ++ [name] := by
  simp [trimPieces, busy]

theorem not_isIdle_last {pieces inner : List (List Char)} {name : List Char}
    (kept : trimPieces pieces = inner ++ [name]) : isIdle name = false := by
  have reversed : pieces.reverse.dropWhile isIdle = name :: inner.reverse := by
    rw [← List.reverse_inj, ← trimPieces, kept]
    simp
  simpa [reversed] using List.head?_dropWhile_not isIdle pieces.reverse

theorem exists_last_of_fileName? {path : Path} {file : String} (found : path.fileName? = some file) :
    ∃ inner name, trimPieces path.split.2 = inner ++ [name] ∧ name ≠ ['.', '.'] := by
  unfold fileName? at found
  split at found
  · cases found
  · next name last =>
    obtain ⟨inner, kept⟩ := List.getLast?_eq_some_iff.1 last
    refine ⟨inner, name, kept, ?_⟩
    rintro rfl
    simp at found

theorem moves_idle {idle : List (List Char)} (all : ∀ piece ∈ idle, isIdle piece = true) :
    ∀ move ∈ moves idle, move = .here := by
  intro move inside
  obtain ⟨piece, among, asked⟩ := List.mem_filterMap.1 inside
  have rests := all piece among
  simp only [isIdle, Bool.or_eq_true, decide_eq_true_eq] at rests
  rcases rests with empty | rfl
  · simp [move?, empty] at asked
  · simpa [move?, eq_comm] using asked

theorem move?_name {name : List Char} (busy : isIdle name = false) (down : name ≠ ['.', '.']) :
    move? name = some (.into (String.ofList name)) := by
  simp only [isIdle, Bool.or_eq_false_iff, decide_eq_false_iff_not] at busy
  simp [move?, busy, down]

theorem isAbsolute_eq_false {name : String} (free : '/' ∉ name.toList) : (Path.mk name).isAbsolute = false := by
  cases chars : name.toList with
  | nil => simp [isAbsolute, chars]
  | cons c cs =>
    have apart : c ≠ '/' := fun same => free (by simp [chars, same])
    simp [isAbsolute, chars, apart]

theorem isAbsolute_append {path : Path} (filled : path.text.toList ≠ []) (more : String) :
    (Path.mk (path.text ++ more)).isAbsolute = path.isAbsolute := by
  obtain ⟨c, cs, chars⟩ := List.exists_cons_of_ne_nil filled
  simp [isAbsolute, chars]

/-- A name is put behind a folder with a slash between them, unless one is there or the folder is the one that paths
start from. -/
theorem toList_join (folder : Path) {name : String} (free : '/' ∉ name.toList) :
    ∃ glue, (folder.join name).text.toList = folder.text.toList ++ glue ++ name.toList ∧
      (glue = [] ∧ (folder.text.toList = [] ∨ folder.endsInSlash = true) ∨
        glue = ['/'] ∧ folder.text.toList ≠ [] ∧ folder.endsInSlash = false) := by
  unfold join endsInSlash
  rw [isAbsolute_eq_false free, Bool.false_or]
  by_cases empty : folder.text = ""
  · exact ⟨[], by simp [empty]⟩
  · by_cases slash : folder.text.toList.getLast? = some '/'
    · exact ⟨[], by simp [empty, slash]⟩
    · exact ⟨['/'], by simp [empty, slash]⟩

theorem steps_join (folder : Path) {name : String} (free : '/' ∉ name.toList) :
    (folder.join name).steps = folder.steps ++ moves [name.toList] := by
  have single : name.toList.splitOn '/' = [name.toList] := List.splitOn_eq_singleton free
  obtain ⟨glue, text, ⟨rfl, empty | slash⟩ | ⟨rfl, -⟩⟩ := toList_join folder free
  · rw [steps_eq, steps_eq, text, empty, List.nil_append, List.nil_append, single]
    rfl
  · obtain ⟨front, ended⟩ := List.getLast?_eq_some_iff.1 (of_decide_eq_true slash)
    rw [steps_eq, steps_eq, text, ended, List.append_nil, List.append_assoc, List.singleton_append,
      List.splitOn_append_cons_self, List.splitOn_append_cons_self, moves_append, moves_append, single]
    simp [moves, move?]
  · rw [steps_eq, steps_eq, text, List.append_assoc, List.singleton_append, List.splitOn_append_cons_self, moves_append,
      single]

structure IsName (name : List Char) : Prop where
  free : '/' ∉ name
  busy : isIdle name = false
  down : name ≠ ['.', '.']

theorem IsName.append {name more : List Char} (legal : IsName name) (free : '/' ∉ more) (long : 2 < more.length) :
    IsName (name ++ more) := by
  have length : 2 < (name ++ more).length := by simp only [List.length_append]; omega
  have filled : name ++ more ≠ [] := fun same => by simp [same] at length
  have noDot : name ++ more ≠ ['.'] := fun same => by simp [same] at length
  refine ⟨by simp [legal.free, free], ?_, fun same => by simp [same] at length⟩
  simp only [isIdle, List.isEmpty_eq_false_iff.2 filled, noDot]
  rfl

theorem IsName.moves_eq {name : List Char} (legal : IsName name) : moves [name] = [.into (String.ofList name)] := by
  simp only [moves, List.filterMap_cons, move?_name legal.busy legal.down, List.filterMap_nil]

/-- A path from its pieces, with the last one joined to the folder of the others. -/
def rejoin (start : List Char) (inner : List (List Char)) (name : List Char) : Path :=
  (ofPieces start (trimPieces inner)).join (String.ofList name)

structure EndsIn (path : Path) (start : List Char) (inner : List (List Char)) (name : List Char) : Prop where
  split : path.split = (start, inner ++ [name])
  busy : isIdle name = false
  down : name ≠ ['.', '.']

namespace EndsIn

variable {path : Path} {start name : List Char} {inner : List (List Char)} (ends : EndsIn path start inner name)
include ends

theorem parent?_eq : path.parent? = some (ofPieces start (trimPieces inner)) := by
  simp [parent?, ends.split, trimPieces_concat inner ends.busy]

theorem fileName?_eq : path.fileName? = some (String.ofList name) := by
  simp [fileName?, ends.split, trimPieces_concat inner ends.busy, ends.down]

theorem stem?_eq : path.stem? = some (cutName (String.ofList name)).1 := by
  simp [stem?, ends.fileName?_eq]

theorem extension?_eq : path.extension? = (cutName (String.ofList name)).2 := by
  simp [extension?, ends.fileName?_eq]

theorem text_eq : path.text.toList = start ++ ['/'].intercalate (inner ++ [name]) := by
  have whole := path.ofPieces_split
  rw [ends.split] at whole
  rw [← whole, ofPieces, String.toList_ofList]

theorem begins : Begins start (inner ++ [name]) := by
  have whole := path.begins_split
  rwa [ends.split] at whole

theorem free : '/' ∉ name := ends.begins.free name (by simp)

theorem isName : IsName name := ⟨ends.free, ends.busy, ends.down⟩

theorem name_ne_nil : name ≠ [] := by
  rintro rfl
  exact absurd ends.busy (by decide)

/-- Behind a dot, the name is not the first piece. -/
theorem inner_ne_nil (dot : start = ['.']) : inner ≠ [] := by
  rintro rfl
  rcases ends.begins.start with root | ⟨-, first⟩ | bare
  · simp [dot] at root
  · exact ends.name_ne_nil (first name rfl)
  · simp [dot] at bare

theorem steps_eq : path.steps = lead start ++ moves inner ++ [.into (String.ofList name)] := by
  rw [steps_split, ends.split, moves_append, ← List.append_assoc, ends.isName.moves_eq]

/-- The same folder, and another piece behind it. -/
theorem steps_beside {other : List Char} (free : '/' ∉ other) :
    (rejoin start inner other).steps = lead start ++ moves (trimPieces inner) ++ moves [other] := by
  obtain ⟨idle, parts, -⟩ := trimPieces_append inner
  have initial : trimPieces inner <+: inner ++ [name] := ⟨idle ++ [name], by rw [← List.append_assoc, ← parts]⟩
  rw [rejoin, steps_join _ (by simpa using free), steps_ofPieces (ends.begins.of_prefix initial), String.toList_ofList]

/-- The first piece is not idle, unless the path has a start. -/
theorem not_isIdle_first (bare : start = []) : ∀ piece ∈ (inner ++ [name]).head?, isIdle piece = false := by
  rcases path.split_cases with ⟨cs, -, parts⟩ | ⟨-, parts⟩ | ⟨cs, -, parts⟩ | ⟨parts, first⟩
  · simp [ends.split, bare] at parts
  · simp [ends.split, bare] at parts
  · simp [ends.split, bare] at parts
  · have pieces : inner ++ [name] = path.text.toList.splitOn '/' := by simpa [ends.split, bare] using parts
    rw [pieces, head?_splitOn]
    rintro piece ⟨⟩
    refine first fun empty => ?_
    have empty : inner = [] ∧ name = [] := by simpa [empty, List.append_eq_singleton_iff] using pieces
    exact ends.name_ne_nil empty.2

/-- Nothing comes between a start and a name behind it. -/
theorem text_rejoin :
    ∃ glue, (rejoin start inner name).text.toList = start ++ ['/'].intercalate (trimPieces inner) ++ glue ++ name ∧
      (glue = [] ∨ glue = ['/'] ∧ inner ≠ []) := by
  have free : '/' ∉ (String.ofList name).toList := by simpa using ends.free
  obtain ⟨glue, text, shape⟩ := toList_join (ofPieces start (trimPieces inner)) free
  refine ⟨glue, by simpa [rejoin, ofPieces] using text, ?_⟩
  rcases shape with ⟨nothing, -⟩ | ⟨slash, filled, unended⟩
  · exact .inl nothing
  · refine .inr ⟨slash, fun alone => ?_⟩
    subst alone
    rcases ends.begins.start with rfl | ⟨dot, -⟩ | rfl
    · exact absurd unended (by decide)
    · exact ends.inner_ne_nil dot rfl
    · exact filled rfl

theorem sublist_rejoin : (rejoin start inner name).text.toList.Sublist path.text.toList := by
  obtain ⟨idle, parts, -⟩ := trimPieces_append inner
  have shorter : (['/'].intercalate (trimPieces inner)).Sublist (['/'].intercalate inner) :=
    (intercalate_initial ⟨idle, parts.symm⟩).sublist
  obtain ⟨glue, text, shape⟩ := ends.text_rejoin
  rw [text, ends.text_eq]
  by_cases alone : inner = []
  · obtain rfl : glue = [] := by simpa [alone] using shape
    simp [alone, trimPieces]
  · have part : glue.Sublist ['/'] := by rcases shape with rfl | ⟨rfl, -⟩ <;> simp
    rw [intercalate_append alone (by simp), List.intercalate_singleton, ← List.append_assoc, ← List.append_assoc]
    exact (((List.Sublist.refl start).append shorter).append part).append (List.Sublist.refl name)

theorem endsInSlash_rejoin : (rejoin start inner name).endsInSlash = false := by
  obtain ⟨glue, text, -⟩ := ends.text_rejoin
  have last : ∀ c ∈ name.getLast?, c ≠ '/' := by
    rintro c inside rfl
    exact ends.free (List.mem_of_getLast? inside)
  cases final : name.getLast? with
  | none => exact absurd (List.getLast?_eq_none_iff.1 final) ends.name_ne_nil
  | some c => simp [endsInSlash, text, List.getLast?_append, final, last c final]

theorem head?_rejoin : (rejoin start inner name).text.toList.head? = path.text.toList.head? := by
  obtain ⟨glue, text, shape⟩ := ends.text_rejoin
  obtain ⟨idle, parts, all⟩ := trimPieces_append inner
  rw [text, ends.text_eq]
  cases start with
  | cons c start => rfl
  | nil =>
    have first := ends.not_isIdle_first rfl
    cases inner with
    | nil =>
      obtain rfl : glue = [] := by simpa using shape
      simp [trimPieces]
    | cons piece inner =>
      -- Trimming keeps the first piece, which is not idle.
      have busy : isIdle piece = false := first piece rfl
      obtain ⟨c, cs, rfl⟩ : ∃ c cs, piece = c :: cs := List.exists_cons_of_ne_nil (by rintro rfl; cases busy)
      cases kept : trimPieces ((c :: cs) :: inner) with
      | nil =>
        rw [kept, List.nil_append] at parts
        simp [all (c :: cs) (by simp [← parts])] at busy
      | cons other trimmed =>
        obtain rfl : c :: cs = other := by simpa [kept] using congrArg List.head? parts
        cases trimmed <;> cases inner <;> simp [List.intercalate_cons_cons]

/-- A longer last piece makes a longer path. -/
theorem begins_append {more : List Char} (free : '/' ∉ more) : Begins start (inner ++ [name ++ more]) := by
  refine ⟨?_, ?_⟩
  · intro piece inside
    rcases List.mem_append.1 inside with among | last
    · exact ends.begins.free piece (List.mem_append_left _ among)
    · rw [List.mem_singleton.1 last]
      simp [ends.free, free]
  · rcases ends.begins.start with root | ⟨dot, first⟩ | bare
    · exact .inl root
    · obtain ⟨piece, rest, rfl⟩ := List.exists_cons_of_ne_nil (ends.inner_ne_nil dot)
      exact .inr (.inl ⟨dot, first⟩)
    · exact .inr (.inr bare)

theorem text_append (more : List Char) :
    path.text.toList ++ more = start ++ ['/'].intercalate (inner ++ [name ++ more]) := by
  rw [ends.text_eq]
  by_cases alone : inner = []
  · simp [alone]
  · simp [intercalate_append alone]

theorem steps_append {more : List Char} (free : '/' ∉ more) (long : 2 < more.length) :
    (Path.mk (path.text ++ String.ofList more)).steps =
      lead start ++ moves inner ++ [.into (String.ofList (name ++ more))] := by
  have whole : Path.mk (path.text ++ String.ofList more) = ofPieces start (inner ++ [name ++ more]) := by
    rw [ofPieces, ← ends.text_append, String.ofList_append, String.ofList_toList]
  rw [whole, steps_ofPieces (ends.begins_append free), moves_append, ← List.append_assoc,
    (ends.isName.append free long).moves_eq]

end EndsIn

theorem isAbsolute_join (folder : Path) {name : String} (free : '/' ∉ name.toList) :
    (folder.join name).isAbsolute = folder.isAbsolute := by
  obtain ⟨glue, text, shape⟩ := toList_join folder free
  cases chars : folder.text.toList with
  | nil =>
    obtain rfl : glue = [] := by simpa [chars] using shape
    have relative := isAbsolute_eq_false free
    rw [isAbsolute, decide_eq_false_iff_not] at relative
    simp [isAbsolute, text, chars, relative]
  | cons c cs => simp [isAbsolute, text, chars]

theorem exists_moves_trimPieces (pieces : List (List Char)) :
    ∃ idle, (∀ move ∈ idle, move = PathStep.here) ∧ moves pieces = moves (trimPieces pieces) ++ idle := by
  obtain ⟨idle, parts, all⟩ := trimPieces_append pieces
  exact ⟨moves idle, moves_idle all, by rw [← moves_append, ← parts]⟩

/-- The path leads to a name in the folder of a path with these pieces. Moves that stay may stand before the name. -/
structure LeadsTo (path base : Path) (start : List Char) (inner : List (List Char)) (name : List Char) : Prop where
  absolute : path.isAbsolute = base.isAbsolute
  steps : ∃ idle, (∀ move ∈ idle, move = PathStep.here) ∧
    path.steps = lead start ++ moves (trimPieces inner) ++ (idle ++ [.into (String.ofList name)])

namespace EndsIn

variable {path : Path} {start name : List Char} {inner : List (List Char)} (ends : EndsIn path start inner name)
include ends

theorem leadsTo : LeadsTo path path start inner name := by
  obtain ⟨idle, all, same⟩ := exists_moves_trimPieces inner
  exact ⟨rfl, idle, all, by simp [ends.steps_eq, same]⟩

theorem text_ne_nil : path.text.toList ≠ [] := by
  rw [ends.text_eq]
  by_cases alone : inner = []
  · simp [alone, ends.name_ne_nil]
  · simp [intercalate_append alone]

theorem leadsTo_append {more : List Char} (free : '/' ∉ more) (long : 2 < more.length) :
    LeadsTo ⟨path.text ++ String.ofList more⟩ path start inner (name ++ more) := by
  obtain ⟨idle, all, same⟩ := exists_moves_trimPieces inner
  exact ⟨isAbsolute_append ends.text_ne_nil _, idle, all, by simp [ends.steps_append free long, same]⟩

theorem leadsTo_rejoin {other : List Char} (legal : IsName other) :
    LeadsTo (rejoin start inner other) path start inner other := by
  have same : (rejoin start inner other).isAbsolute = (rejoin start inner name).isAbsolute := by
    rw [rejoin, rejoin, isAbsolute_join _ (by simpa using legal.free), isAbsolute_join _ (by simpa using ends.free)]
  refine ⟨?_, [], by simp, ?_⟩
  · rw [same, isAbsolute, isAbsolute, ends.head?_rejoin]
  · rw [ends.steps_beside legal.free, legal.moves_eq, List.nil_append]

end EndsIn

/-- A name with an extension is its stem, a dot and the extension. -/
theorem cutName_some {name extension : String} (cut : (cutName name).2 = some extension) :
    (cutName name).1 ++ "." ++ extension = name ∧ (cutName name).1 ≠ "" := by
  rcases last_cases '.' name.toList with absent | ⟨front, back, parts, undotted⟩
  · simp [cutName, absent] at cut
  · obtain ⟨taken, rest⟩ := reverse_last (a := front) undotted
    simp only [cutName, parts, taken, rest] at cut ⊢
    cases front using List.reverseRecOn with
    | nil => simp at cut
    | append_singleton front c =>
      have behind : extension = String.ofList back := by simpa using cut.symm
      refine ⟨String.toList_inj.1 ?_, by simp⟩
      simp [behind, parts]

theorem cutName_none {name : String} (uncut : (cutName name).2 = none) : (cutName name).1 = name := by
  simp only [cutName] at uncut ⊢
  split at uncut <;> simp_all

end Path
end Gridbook
