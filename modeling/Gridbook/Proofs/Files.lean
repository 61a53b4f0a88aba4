import Gridbook.Command.Files
import Mathlib.Tactic.Common

/-!
What operations on files find and leave. A path leads through folders, so what it leads to is not changed by a file that
is put in place of another or where nothing was; a file that has been written is found again under its path; and making
folders touches no file. A write that fails has left its file as it was, if it could not be opened, and otherwise with the
beginning of what was to be written (`Disk.Interrupted`). In a session (`Session.run`) the operations act on its disk.
-/
namespace Gridbook

namespace Content

variable {content : Content} {limit : Option Nat} {more : String}

@[simp] theorem toBytes_ofBytes (bytes : List UInt8) : (ofBytes bytes).toBytes = bytes := by
  unfold ofBytes String.fromUTF8?
  split
  · next decoded found =>
    split at found
    · cases found
      rfl
    · cases found
  · rfl

theorem toBytes_append (content : Content) (more : String) :
    (content.append more).toBytes = content.toBytes ++ (text more).toBytes := by
  cases content with
  | text old => simp [append, toBytes]
  | bytes old => rfl

theorem size_append (content : Content) (more : String) :
    (content.append more).size = content.size + more.utf8ByteSize := by
  rw [size, toBytes_append, List.length_append]
  rfl

/-- A file with the limit can hold the text behind the content. -/
def Fits (content : Content) (limit : Option Nat) (more : String) : Prop :=
  ∀ most ∈ limit, more.utf8ByteSize ≤ most - content.size

theorem fits_empty : (text "").Fits limit more ↔ ∀ most ∈ limit, more.utf8ByteSize ≤ most := Iff.rfl

theorem grow_of_fits (fits : content.Fits limit more) : content.grow limit more = (content.append more, .ok ()) := by
  cases limit with
  | none => rfl
  | some most => exact if_pos (fits most rfl)

theorem grow_some {most : Nat} (less : most - content.size < more.utf8ByteSize) :
    content.grow (some most) more =
      (ofBytes (content.toBytes ++ (text more).toBytes.take (most - content.size)), .error .noSpace) :=
  if_neg (Nat.not_le.2 less)

/-- Unless it fits, there is a limit that the text goes beyond. -/
theorem exists_less_of_not_fits (beyond : ¬content.Fits limit more) :
    ∃ most, limit = some most ∧ most - content.size < more.utf8ByteSize := by
  simpa [Fits] using beyond

theorem append_append (content : Content) (first second : String) :
    (content.append first).append second = content.append (first ++ second) := by
  cases content with
  | text old => simp [append, String.append_assoc]
  | bytes old => simp [append, toBytes]

theorem fits_append {first second : String} :
    content.Fits limit (first ++ second) ↔ content.Fits limit first ∧ (content.append first).Fits limit second := by
  simp only [Fits, size_append, String.utf8ByteSize_append, ← forall_and]
  grind

/-- A full file takes nothing more. -/
theorem grow_full {most : Nat} {bytes : List UInt8} (full : most ≤ bytes.length) :
    ((ofBytes bytes).grow (some most) more).1 = ofBytes bytes := by
  have room : most - (ofBytes bytes).size = 0 := by simp [size, full]
  by_cases empty : more = ""
  · subst empty
    rw [grow_of_fits fun _ _ => Nat.zero_le _]
    cases ofBytes bytes <;> simp [append, toBytes]
  · have less : most - (ofBytes bytes).size < more.utf8ByteSize := by
      rw [room]
      exact Nat.pos_of_ne_zero fun none => empty (String.utf8ByteSize_eq_zero_iff.1 none)
    rw [grow_some less, room, List.take_zero, List.append_nil, toBytes_ofBytes]

/-- A text that is written in two parts leaves what it leaves in one. -/
theorem grow_grow (content : Content) (limit : Option Nat) (first second : String) :
    ((content.grow limit first).1.grow limit second).1 = (content.grow limit (first ++ second)).1 := by
  have bytes : (text (first ++ second)).toBytes = (text first).toBytes ++ (text second).toBytes :=
    toBytes_append (text first) second
  have whole (most : Nat) (short : most - content.size < first.utf8ByteSize + second.utf8ByteSize) :=
    @grow_some content (first ++ second) most (by rwa [String.utf8ByteSize_append])
  by_cases fits : content.Fits limit first
  · rw [grow_of_fits fits]
    by_cases further : (content.append first).Fits limit second
    · rw [grow_of_fits further, grow_of_fits (fits_append.2 ⟨fits, further⟩), append_append]
    · obtain ⟨most, rfl, less⟩ := exists_less_of_not_fits further
      have room : (text first).toBytes.length ≤ most - content.size := fits most rfl
      rw [grow_some less]
      rw [size_append] at less ⊢
      rw [whole most (by omega), toBytes_append, bytes, List.take_append, List.take_of_length_le room, List.append_assoc,
        Nat.sub_add_eq]
      rfl
  · obtain ⟨most, rfl, less⟩ := exists_less_of_not_fits fits
    -- The first part is cut, and behind it there is no room for the second.
    have cut : (text first).toBytes.length = first.utf8ByteSize := rfl
    rw [grow_some less, whole most (by omega), bytes, List.take_append_of_le_length (by omega)]
    refine grow_full ?_
    rw [List.length_append, List.length_take, cut, ← size]
    omega

end Content

@[simp] theorem WriteMode.kept_replace (old : Option Content) : replace.kept old = .text "" := by cases old <;> rfl

namespace Disk

theorem lookup_filter {entries : List (Location × Entry)} {location other : Location} (different : other ≠ location) :
    (entries.filter fun entry => entry.1 ≠ location).lookup other = entries.lookup other := by
  induction entries with
  | nil => rfl
  | cons entry entries ih => by_cases same : entry.1 = location <;> grind

theorem entry?_put_ne {disk : Disk} {location other : Location} (entry : Entry) (different : other ≠ location) :
    Disk.entry? (disk.put location entry) other = disk.entry? other := by
  have apart : (other == location) = false := by simpa using different
  unfold entry? put
  simp only [List.lookup_cons, apart, lookup_filter different]

theorem entry?_put (disk : Disk) {location : Location} (entry : Entry) (inner : location ≠ .root) :
    Disk.entry? (disk.put location entry) location = some entry := by
  unfold entry? put
  simp [inner]

theorem put_put (disk : Disk) (location : Location) (first second : Entry) :
    (disk.put location first).put location second = disk.put location second := by
  simp [put]

theorem walk_append (disk : Disk) (start : Location) (a b : List PathStep) :
    disk.walk start (a ++ b) = disk.walk start a >>= fun location => disk.walk location b := by
  induction a generalizing start with
  | nil => rfl
  | cons move a ih =>
    rw [List.cons_append, walk, walk]
    split
    · rfl
    · rfl
    · split
      · exact ih _
      · rfl

theorem walk_into {disk : Disk} {folder location : Location} {name : String}
    (reached : disk.walk folder [.into name] = .ok location) : location = folder.child name := by
  simp only [walk, step] at reached
  grind

/-- Steps that stay do not count before another one. -/
theorem walk_stay (disk : Disk) (start : Location) {idle : List PathStep} (all : ∀ move ∈ idle, move = .here)
    (move : PathStep) (moves : List PathStep) :
    disk.walk start (idle ++ move :: moves) = disk.walk start (move :: moves) := by
  induction idle with
  | nil => rfl
  | cons first idle ih =>
    obtain rfl := all first (by simp)
    have further := ih fun other inside => all other (List.mem_cons_of_mem _ inside)
    rw [List.cons_append, walk, step]
    cases found : disk.entry? start with
    | none => simp [walk, found]
    | some entry =>
      cases entry with
      | folder => exact further
      | file content => simp [walk, found]

theorem entry?_of_walk_here {disk : Disk} {start last : Location} {moves : List PathStep}
    (reached : disk.walk start (moves ++ [.here]) = .ok last) : disk.entry? last = some .folder := by
  rw [walk_append] at reached
  cases before : disk.walk start moves with
  | error => simp [before, bind, Except.bind] at reached
  | ok place =>
    simp only [before, bind, Except.bind, walk, step] at reached
    split at reached <;> grind

/-- A walk only leaves folders, so it does not see what is put in place of anything else. -/
theorem walk_put {disk : Disk} {location start last : Location} {moves : List PathStep} (entry : Entry)
    (free : disk.entry? location ≠ some .folder) (reached : disk.walk start moves = .ok last) :
    (disk.put location entry).walk start moves = .ok last := by
  induction moves generalizing start with
  | nil => exact reached
  | cons move moves ih =>
    unfold walk at reached ⊢
    split at reached
    · cases reached
    · cases reached
    · next folder =>
      have elsewhere : start ≠ location := fun same => free (same ▸ folder)
      rw [entry?_put_ne entry elsewhere, folder]
      split at reached
      · exact ih reached
      · cases reached

theorem locate_put {disk : Disk} {location last : Location} {path : Path} (entry : Entry)
    (free : disk.entry? location ≠ some .folder) (located : disk.locate path = .ok last) :
    (disk.put location entry).locate path = .ok last := by
  unfold locate at located ⊢
  split at located
  · cases located
  · exact walk_put entry free located

/-- A file is opened for writing at the place that its path leads to, if that is not locked and is free or a file. -/
theorem openToWrite_iff {disk : Disk} {path : Path} {location : Location} {old : Option Content} :
    disk.openToWrite path = .ok (location, old) ↔
      path.endsInSlash = false ∧ disk.locate path = .ok location ∧ location ∉ disk.locked ∧
        disk.entry? location = old.map .file := by
  unfold openToWrite
  cases path.endsInSlash with
  | true => cases disk.locateFolder path <;> simp [bind, Except.bind]
  | false =>
    cases disk.locate path with
    | error => simp [bind, Except.bind]
    | ok place =>
      simp only [bind, Except.bind, Bool.false_eq_true, if_false, true_and, Except.ok.injEq]
      split
      · next found => cases old <;> grind
      · next content found => by_cases locked : place ∈ disk.locked <;> cases old <;> grind
      · next found => by_cases locked : place ∈ disk.locked <;> cases old <;> grind

/-- A file to write lies at a place that its path leads to and that is no folder. -/
theorem openToWrite_ok {disk : Disk} {path : Path} {location : Location} {old : Option Content}
    (opened : disk.openToWrite path = .ok (location, old)) :
    path.endsInSlash = false ∧ disk.locate path = .ok location ∧ disk.entry? location ≠ some .folder := by
  obtain ⟨noSlash, located, -, found⟩ := openToWrite_iff.1 opened
  exact ⟨noSlash, located, by cases old <;> simp [found]⟩

/-- A text is read from the place that its path leads to. -/
theorem readText_iff {disk : Disk} {path : Path} {text : String} :
    disk.readText path = .ok text ↔
      path.endsInSlash = false ∧
        ∃ location, disk.locate path = .ok location ∧ disk.entry? location = some (.file (.text text)) := by
  unfold readText
  cases disk.locate path with
  | error => simp [bind, Except.bind]
  | ok place =>
    simp only [bind, Except.bind, Except.ok.injEq, exists_eq_left']
    split <;> grind

theorem ne_root_of_free {disk : Disk} {location : Location} (free : disk.entry? location ≠ some .folder) :
    location ≠ .root := by
  rintro rfl
  exact free rfl

/-- A file that has been put at a place that could be opened can be opened again. -/
theorem openToWrite_put {disk : Disk} {path : Path} {location : Location} {old : Option Content} (content : Content)
    (opened : disk.openToWrite path = .ok (location, old)) :
    (disk.put location (.file content)).openToWrite path = .ok (location, some content) := by
  obtain ⟨noSlash, located, free⟩ := openToWrite_ok opened
  obtain ⟨-, -, unlocked, -⟩ := openToWrite_iff.1 opened
  exact openToWrite_iff.2 ⟨noSlash, locate_put _ free located, unlocked, entry?_put disk _ (ne_root_of_free free)⟩

/-- A file can be opened for writing under the path. -/
def Writable (disk : Disk) (path : Path) : Prop := ∃ location old, disk.openToWrite path = .ok (location, old)

section

variable {disk written left : Disk} {mode : WriteMode} {path : Path} {location : Location} {old : Option Content}
  {text : String} {error : FileError}

theorem write_opened (opened : disk.openToWrite path = .ok (location, old)) :
    disk.write mode path text =
      (disk.put location (.file ((mode.kept old).grow (disk.limits.lookup location) text).1),
        ((mode.kept old).grow (disk.limits.lookup location) text).2) := by
  obtain ⟨-, -, free⟩ := openToWrite_ok opened
  have held := entry?_put disk (.file (mode.kept old)) (ne_root_of_free free)
  simp only [write, openFile, opened, bind, Except.bind, pure, Except.pure, fill, held, put_put]
  rfl

theorem write_refused (refused : disk.openToWrite path = .error error) :
    disk.write mode path text = (disk, .error error) := by
  simp only [write, openFile, refused, bind, Except.bind]

/-- Paths under which the same file is opened are written alike. -/
theorem write_congr {other : Path} (same : disk.openToWrite path = disk.openToWrite other) :
    disk.write mode path text = disk.write mode other text := by
  rw [write, write, openFile, openFile, same]

theorem write_ok_iff :
    disk.write mode path text = (written, .ok ()) ↔
      ∃ location old, disk.openToWrite path = .ok (location, old) ∧
        (mode.kept old).Fits (disk.limits.lookup location) text ∧
        written = disk.put location (.file ((mode.kept old).append text)) := by
  constructor
  · intro done
    cases opened : disk.openToWrite path with
    | error error => simp [write_refused opened] at done
    | ok file =>
      obtain ⟨location, old⟩ := file
      by_cases fits : (mode.kept old).Fits (disk.limits.lookup location) text
      · rw [write_opened opened, Content.grow_of_fits fits] at done
        cases done
        exact ⟨location, old, rfl, fits, rfl⟩
      · obtain ⟨most, limited, less⟩ := Content.exists_less_of_not_fits fits
        simp [write_opened opened, limited, Content.grow_some less] at done
  · rintro ⟨location, old, opened, fits, rfl⟩
    rw [write_opened opened, Content.grow_of_fits fits]

theorem writeText_iff :
    disk.writeText path text = (written, .ok ()) ↔
      ∃ location old, disk.openToWrite path = .ok (location, old) ∧
        (∀ most ∈ disk.limits.lookup location, text.utf8ByteSize ≤ most) ∧
        written = disk.put location (.file (.text text)) := by
  simp only [writeText, write_ok_iff, WriteMode.kept_replace, Content.fits_empty, Content.append, String.empty_append]

/-- A text that is appended in two parts leaves what it leaves in one. -/
theorem appendText_appendText (disk : Disk) (path : Path) (first second : String) :
    ((disk.appendText path first).1.appendText path second).1 = (disk.appendText path (first ++ second)).1 := by
  unfold appendText
  cases opened : disk.openToWrite path with
  | error error => simp only [write_refused opened]
  | ok file =>
    obtain ⟨location, old⟩ := file
    rw [write_opened opened, write_opened opened, write_opened (openToWrite_put _ opened), put_put]
    exact congrArg (fun content => disk.put location (.file content)) (Content.grow_grow ..)

/-- A write changes at most the file that it opens. -/
theorem write_frame (disk : Disk) (mode : WriteMode) (path : Path) (text : String) :
    (disk.write mode path text).1 = disk ∨
      ∃ location old content, disk.openToWrite path = .ok (location, old) ∧
        (disk.write mode path text).1 = disk.put location (.file content) := by
  cases opened : disk.openToWrite path with
  | error error => exact .inl (by rw [write_refused opened])
  | ok file => exact .inr ⟨file.1, file.2, _, rfl, by rw [write_opened opened]⟩

theorem entry?_write_ne {place : Location} (elsewhere : disk.locate path ≠ .ok place) (mode : WriteMode)
    (text : String) : Disk.entry? (disk.write mode path text).1 place = disk.entry? place := by
  rcases disk.write_frame mode path text with same | ⟨location, old, left, opened, put⟩
  · rw [same]
  · rw [put]
    exact entry?_put_ne _ fun here => elsewhere (here ▸ (openToWrite_ok opened).2.1)

/-- What a write that fails has left: the file could not be opened, or it could not be filled. -/
inductive Interrupted (disk : Disk) (path : Path) (text : String) : Disk → Prop where
  | unopened {error : FileError} (refused : disk.openToWrite path = .error error) : Interrupted disk path text disk
  | unfilled {location : Location} {old : Option Content} {most : Nat}
      (opened : disk.openToWrite path = .ok (location, old)) (limited : disk.limits.lookup location = some most)
      (less : most < text.utf8ByteSize) :
      Interrupted disk path text (disk.put location (.file (.ofBytes ((Content.text text).toBytes.take most))))

theorem interrupted_writeText (failed : disk.writeText path text = (left, .error error)) :
    disk.Interrupted path text left := by
  cases opened : disk.openToWrite path with
  | error refusal =>
    rw [writeText, write_refused opened] at failed
    cases failed
    exact .unopened opened
  | ok file =>
    obtain ⟨location, old⟩ := file
    rw [writeText, write_opened opened, WriteMode.kept_replace] at failed
    by_cases fits : (Content.text "").Fits (disk.limits.lookup location) text
    · rw [Content.grow_of_fits fits] at failed
      cases failed
    · obtain ⟨most, limited, less⟩ := Content.exists_less_of_not_fits fits
      rw [limited, Content.grow_some less] at failed
      cases failed
      exact .unfilled opened limited less

end

theorem readText_of_openToWrite {disk : Disk} {path : Path} {location : Location} {text : String}
    (opened : disk.openToWrite path = .ok (location, some (.text text))) : disk.readText path = .ok text := by
  obtain ⟨noSlash, located, -, found⟩ := openToWrite_iff.1 opened
  exact readText_iff.2 ⟨noSlash, location, located, found⟩

theorem readText_absent {disk : Disk} {path : Path} {location : Location}
    (opened : disk.openToWrite path = .ok (location, none)) : disk.readText path = .error .notFound := by
  obtain ⟨-, located, -, nothing⟩ := openToWrite_iff.1 opened
  simp [readText, located, nothing, bind, Except.bind]

/-- What has been written to a file is read from it. -/
theorem readText_writeText {disk written : Disk} {path : Path} {text : String}
    (done : disk.writeText path text = (written, .ok ())) : written.readText path = .ok text := by
  obtain ⟨location, old, opened, -, rfl⟩ := writeText_iff.1 done
  exact readText_of_openToWrite (openToWrite_put (.text text) opened)

/-- What is appended to a file comes behind what was read from it. -/
theorem readText_appendText {disk grown : Disk} {path : Path} {old text : String}
    (done : disk.appendText path text = (grown, .ok ())) (before : disk.readText path = .ok old) :
    grown.readText path = .ok (old ++ text) := by
  obtain ⟨location, found, opened, -, rfl⟩ := write_ok_iff.1 done
  obtain ⟨-, located, -, entry⟩ := openToWrite_iff.1 opened
  obtain ⟨-, place, there, held⟩ := readText_iff.1 before
  obtain rfl : location = place := Except.ok.inj (located.symm.trans there)
  obtain rfl : found = some (.text old) := by cases found <;> simp_all
  exact readText_of_openToWrite (openToWrite_put _ opened)

/-- What is appended to a file that is not there is all that it holds. -/
theorem readText_appendText_absent {disk grown : Disk} {path : Path} {text : String}
    (done : disk.appendText path text = (grown, .ok ())) (before : disk.readText path = .error .notFound) :
    grown.readText path = .ok text := by
  obtain ⟨location, found, opened, -, rfl⟩ := write_ok_iff.1 done
  obtain ⟨noSlash, located, -, entry⟩ := openToWrite_iff.1 opened
  obtain rfl : found = none := by
    cases found with
    | none => rfl
    | some content => cases content <;> simp [readText, located, entry, noSlash, bind, Except.bind] at before
  have text := readText_of_openToWrite (openToWrite_put (.text ("" ++ text)) opened)
  rwa [String.empty_append] at text

/-- A text stays as it was when something is put elsewhere, where no folder is. -/
theorem readText_put_ne {disk : Disk} {path : Path} {place : Location} {text : String} (entry : Entry)
    (free : disk.entry? place ≠ some .folder) (before : disk.readText path = .ok text)
    (apart : disk.locate path ≠ .ok place) : (disk.put place entry).readText path = .ok text := by
  obtain ⟨noSlash, location, located, held⟩ := readText_iff.1 before
  have different : location ≠ place := fun same => apart (same ▸ located)
  exact readText_iff.2 ⟨noSlash, location, locate_put _ free located, (entry?_put_ne _ different).trans held⟩

/-- Another file is not changed by a write, whether it succeeds or fails. -/
theorem readText_write_ne {disk : Disk} {path other : Path} {text : String} (mode : WriteMode) (content : String)
    (before : disk.readText path = .ok text)
    (apart : ∀ location, disk.locate path = .ok location → disk.locate other ≠ .ok location) :
    (disk.write mode other content).1.readText path = .ok text := by
  rcases disk.write_frame mode other content with same | ⟨place, old, left, opened, put⟩
  · rwa [same]
  · obtain ⟨-, there, free⟩ := openToWrite_ok opened
    rw [put]
    exact readText_put_ne _ free before fun located => apart place located there

/-- A walk does not see what a file holds. -/
theorem walk_put_file {disk : Disk} {location : Location} {old : Content}
    (held : disk.entry? location = some (.file old)) (content : Content) (start : Location) (moves : List PathStep) :
    (disk.put location (.file content)).walk start moves = disk.walk start moves := by
  induction moves generalizing start with
  | nil => rfl
  | cons move moves ih =>
    unfold walk
    by_cases here : start = location
    · subst here
      have inner : start ≠ .root := by
        have taken : disk.entry? start ≠ some .folder := by simp [held]
        exact ne_root_of_free taken
      rw [entry?_put disk _ inner, held]
    · rw [entry?_put_ne _ here]
      split
      · rfl
      · rfl
      · split
        · exact ih _
        · rfl

theorem locate_put_file {disk : Disk} {location : Location} {old : Content}
    (held : disk.entry? location = some (.file old)) (content : Content) (path : Path) :
    (disk.put location (.file content)).locate path = disk.locate path := by
  unfold locate
  split
  · rfl
  · exact walk_put_file held content ..

/-- Another file is not changed by what is put in place of a file. -/
theorem readText_put_file {disk : Disk} {location : Location} {old : Content}
    (held : disk.entry? location = some (.file old)) (content : Content) {path : Path}
    (elsewhere : disk.locate path ≠ .ok location) :
    (disk.put location (.file content)).readText path = disk.readText path := by
  unfold readText
  rw [locate_put_file held]
  cases located : disk.locate path with
  | error => rfl
  | ok place =>
    have different : place ≠ location := fun same => elsewhere (same ▸ located)
    simp only [bind, Except.bind, entry?_put_ne _ different]

/-- The two disks hold the same files, with the same limits. They may differ in their folders. -/
structure SameFiles (disk other : Disk) : Prop where
  files : ∀ location content, other.entry? location = some (.file content) ↔ disk.entry? location = some (.file content)
  limits : other.limits = disk.limits

variable {disk : Disk}

theorem SameFiles.refl (disk : Disk) : disk.SameFiles disk := ⟨fun _ _ => Iff.rfl, rfl⟩

theorem SameFiles.trans {middle last : Disk} (first : disk.SameFiles middle) (second : middle.SameFiles last) :
    disk.SameFiles last :=
  ⟨fun location content => (second.files location content).trans (first.files location content),
    second.limits.trans first.limits⟩

theorem sameFiles_put_folder {location : Location} (free : disk.entry? location = none) :
    disk.SameFiles (disk.put location .folder) := by
  refine ⟨fun other content => ?_, rfl⟩
  by_cases here : other = location
  · subst here
    have empty : disk.entry? other ≠ some .folder := by simp [free]
    simp [entry?_put disk .folder (ne_root_of_free empty), free]
  · rw [entry?_put_ne .folder here]

theorem makeFolder_sameFiles {made : Disk} {above location : Location} {last : PathStep}
    (done : disk.makeFolder above last = .ok (made, location)) : disk.SameFiles made := by
  unfold makeFolder at done
  split at done
  · cases done
  · cases done
  · cases stepped : step above last with
    | error => simp [stepped, bind, Except.bind] at done
    | ok place =>
      simp only [stepped, bind, Except.bind] at done
      split at done
      · next free =>
        cases done
        exact sameFiles_put_folder free
      · cases done
        exact .refl disk
      · cases done

theorem makeFoldersFrom_sameFiles (start : Location) (moves : List PathStep) :
    disk.SameFiles (disk.makeFoldersFrom start moves).1 := by
  induction moves with
  | nil => exact .refl disk
  | cons last above ih =>
    unfold makeFoldersFrom
    split
    · next made location found =>
      cases walked : disk.walk start above.reverse with
      | error => simp [walked, bind, Except.bind] at found
      | ok place => exact makeFolder_sameFiles (by simpa [walked, bind, Except.bind] using found)
    · -- A folder above is missing: those above are made first.
      split
      · next grown error failed => simpa [failed] using ih
      · next grown location reached =>
        have grew : disk.SameFiles grown := by simpa [reached] using ih
        split
        · next made place done => exact grew.trans (makeFolder_sameFiles done)
        · exact grew
    · exact .refl disk

theorem makeFolders_sameFiles (disk : Disk) (path : Path) : disk.SameFiles (disk.makeFolders path).1 := by
  unfold makeFolders
  split
  · exact .refl disk
  · split
    · exact .refl disk
    · exact makeFoldersFrom_sameFiles _ _

end Disk

namespace Session

def run {α : Type} (session : Session) (action : SessionM α) : α × Session := StateT.run action session

variable {α β : Type} (session : Session)

@[simp] theorem run_pure (a : α) : session.run (pure a) = (a, session) := rfl

@[simp] theorem run_bind (action : SessionM α) (next : α → SessionM β) :
    session.run (action >>= next) = (session.run action).2.run (next (session.run action).1) := rfl

@[simp] theorem run_map (f : α → β) (action : SessionM α) :
    session.run (f <$> action) = (f (session.run action).1, (session.run action).2) := rfl

@[simp] theorem run_log (line : LogLine) :
    session.run (MonadLog.log line) = ((), { session with log := session.log ++ [line] }) := rfl

@[simp] theorem run_readText (path : Path) :
    session.run (MonadFiles.readText path) = (session.disk.readText path, session) := rfl

@[simp] theorem run_writeText (path : Path) (text : String) :
    session.run (MonadFiles.writeText path text) =
      ((session.disk.writeText path text).2, { session with disk := (session.disk.writeText path text).1 }) := rfl

@[simp] theorem run_appendText (path : Path) (text : String) :
    session.run (MonadFiles.appendText path text) =
      ((session.disk.appendText path text).2, { session with disk := (session.disk.appendText path text).1 }) := rfl

end Session
end Gridbook
