import Engagement.Store.Backend

/-! # Documents and their siblings

A replacement of a document that fails leaves the document as it was, unless the document is its own
sibling. What the sibling holds makes no difference to any call, with the same exception.
-/

namespace Engagement

/-- What is asked of storage. -/
inductive Call where
  | load
  | write (w : Write)
  | reopen

/-- A call, with the mishap if one comes to pass on the way. -/
structure Attempt where
  call : Call
  mishap : Option Mishap

namespace Document

/-- Carries out a call. Loads answer with a snapshot. -/
def perform (d : Document) (mishap : Option Mishap) :
    Call → Document × Except Fault (Option Snapshot)
  | .load => ((d.load mishap).1, (d.load mishap).2.map some)
  | .write w => ((d.write mishap w).1, (d.write mishap w).2.map fun _ => none)
  | .reopen => (d.reopen, .ok none)

end Document

namespace Backend

/-- Carries out a call. Loads answer with a snapshot. -/
def perform (b : Backend) : Call → Backend × Except Fault (Option Snapshot)
  | .load => (b.load.1, b.load.2.map some)
  | .write w => ((b.write w).1, (b.write w).2.map fun _ => none)
  | .reopen => (b.reopen, .ok none)

/-- Storage that keeps a document carries out calls as on the document, with no mishap. -/
theorem perform_file (d : Document) (call : Call) :
    (Backend.file d).perform call = (.file (d.perform none call).1, (d.perform none call).2) := by
  cases call <;> rfl

end Backend

/-! ## File operations -/

namespace Files

variable {files files' : Files} {path source target text : String} {disk : Disk}

@[simp] theorem put_same : files.put path disk path = disk := if_pos rfl

theorem put_of_ne {other : String} (ne : other ≠ path) : files.put path disk other = files other :=
  if_neg ne

/-- A text is written unless a directory is in the way, or the path does not name a file. -/
theorem write_cases (files : Files) (path text : String) :
    (files.write path text = .ok (files.put path (.text text)) ∧ Path.namesFile path = true ∧
      files path ≠ .directory) ∨
    (files.write path text = .error .io ∧
      (Path.namesFile path = true → files path = .directory)) := by
  unfold write
  split
  · rename_i blocked
    exact .inr ⟨rfl, fun named => by rwa [Path.place_of_namesFile named] at blocked⟩
  · rename_i free
    by_cases named : Path.namesFile path = true
    · rw [if_pos named]
      exact .inl ⟨rfl, named, by rwa [Path.place_of_namesFile named] at free⟩
    · rw [if_neg named]
      exact .inr ⟨rfl, fun h => (named h).elim⟩

theorem rename_cases (files : Files) (source target : String) :
    (∃ renamed, files.rename source target = .ok renamed ∧ Path.namesFile target = true ∧
      ((source = target ∧ renamed = files) ∨ (source ≠ target ∧ files target ≠ .directory ∧
        renamed = (files.put target (files source)).put source .absent))) ∨
    (files.rename source target = .error .io ∧
      (Path.namesFile target = true → source ≠ target ∧ files target = .directory)) := by
  unfold rename
  by_cases named : Path.namesFile target = true
  · rw [named, Bool.not_true, if_neg Bool.false_ne_true]
    by_cases same : source = target
    · rw [if_pos same]
      exact .inl ⟨files, rfl, rfl, .inl ⟨same, rfl⟩⟩
    · rw [if_neg same]
      split
      · rename_i occupied
        exact .inr ⟨rfl, fun _ => ⟨same, occupied⟩⟩
      · rename_i free
        exact .inl ⟨_, rfl, rfl, .inr ⟨same, free, rfl⟩⟩
  · rw [Bool.not_eq_true _ |>.mp named]
    exact .inr ⟨rfl, fun h => (Bool.false_ne_true h).elim⟩

/-- A path that names no file has no text. -/
theorem read_of_not_named (unnamed : Path.namesFile path = false) :
    files.read path = .ok .empty ∨ files.read path = .error .io := by
  unfold read
  cases files (Path.place path) with
  | absent => exact .inl rfl
  | directory => exact .inr rfl
  | text content => exact .inr (by rw [unnamed]; rfl)

theorem read_congr (same : files' (Path.place path) = files (Path.place path)) :
    files'.read path = files.read path := by
  unfold read
  rw [same]

/-- The same stands at each place but one, where in both cases a text can be written, or cannot. -/
structure SameBut (path : String) (files files' : Files) : Prop where
  others : ∀ other ≠ path, files' other = files other
  blocked : files' path = .directory ↔ files path = .directory

namespace SameBut

theorem refl (path : String) (files : Files) : SameBut path files files :=
  ⟨fun _ _ => rfl, .rfl⟩

theorem put (clear : files path ≠ .directory) (text : String) :
    SameBut path files (files.put path (.text text)) where
  others _ ne := put_of_ne ne
  blocked := by simp [clear]

/-- What is written at the path makes up for the difference. -/
theorem write_eq (h : SameBut path files files') (clear : files path ≠ .directory)
    (named : Path.namesFile path = true) (text : String) :
    files'.write path text = files.write path text := by
  have clear' : files' path ≠ .directory := fun blocked => clear (h.blocked.mp blocked)
  have same : files'.put path (.text text) = files.put path (.text text) := by
    funext other
    by_cases he : other = path
    · rw [he, put_same, put_same]
    · rw [put_of_ne he, put_of_ne he, h.others other he]
  rcases files.write_cases path text with ⟨he, -, -⟩ | ⟨-, blocked⟩
  · rcases files'.write_cases path text with ⟨he', -, -⟩ | ⟨-, blocked'⟩
    · rw [he, he', same]
    · exact (clear' (blocked' named)).elim
  · exact (clear (blocked named)).elim

/-- A path that cannot be written stays so. -/
theorem write_error (h : SameBut path files files')
    (fails : Path.namesFile path = true → files path = .directory) (text : String) :
    files'.write path text = .error .io := by
  rcases files'.write_cases path text with ⟨-, named, free⟩ | ⟨he, -⟩
  · exact (free (h.blocked.mpr (fails named))).elim
  · exact he

end SameBut

end Files

namespace Document

variable {d d' : Document} {mishap : Option Mishap} {text : String} {files : Files} {fault : Fault}

/-- The document is not its own sibling. -/
def Apart (d : Document) : Prop := Path.place d.sibling ≠ Path.place d.path

instance : Decidable d.Apart := inferInstanceAs (Decidable (_ ≠ _))

/-- What is written to the sibling does not touch the document. -/
theorem Apart.ne (apart : d.Apart) : Path.place d.path ≠ d.sibling := by
  intro same
  by_cases named : Path.isNamed d.path = true
  · have place := Path.place_of_namesFile (Path.namesFile_sibling named)
    exact apart (place.trans same.symm)
  · have own : d.sibling = d.path := if_neg named
    exact apart (congrArg Path.place own)

/-! ## Replacing the text -/

theorem sameBut_leaving (d : Document) (left : Option String) :
    Files.SameBut d.sibling d.files (d.leaving left) := by
  cases left with
  | none => exact .refl ..
  | some part =>
    rcases d.files.write_cases d.sibling part with ⟨he, -, free⟩ | ⟨he, -⟩
    · simpa [leaving, he, Except.toOption] using .put free part
    · simpa [leaving, he, Except.toOption] using .refl ..

/-- The text can be replaced unless there is a directory in the way, or the path names no file. When
that fails the sibling has the text at most; the document has it only if its path names no file. -/
theorem exchange_cases (d : Document) (text : String) :
    (∃ files, d.exchange text = (files, .ok ()) ∧ Path.namesFile d.path = true ∧
      d.files d.sibling ≠ .directory ∧ d.contents ≠ .directory ∧ files d.path = .text text ∧
      files d.sibling ≠ .directory) ∨
    (∃ files, d.exchange text = (files, .error .io) ∧ Files.SameBut d.sibling d.files files ∧
      (Path.namesFile d.path = true → d.files d.sibling = .directory ∨ d.contents = .directory) ∧
      (Path.namesFile d.path = true → files d.path = d.files d.path)) := by
  have place (named : Path.namesFile d.path = true) : d.contents = d.files d.path :=
    congrArg d.files (Path.place_of_namesFile named)
  unfold exchange
  rcases d.files.write_cases d.sibling text with ⟨he, -, free⟩ | ⟨he, blocked⟩
  · rw [he]
    dsimp only
    rcases (d.files.put d.sibling (.text text)).rename_cases d.sibling d.path with
      ⟨renamed, hr, named, ⟨same, rfl⟩ | ⟨ne, clear, rfl⟩⟩ | ⟨hr, occupied⟩
    · rw [hr]
      refine .inl ⟨_, rfl, named, free, ?_, by rw [← same, Files.put_same], by simp⟩
      rwa [place named, ← same]
    · rw [hr]
      rw [Files.put_of_ne (Ne.symm ne)] at clear
      refine .inl ⟨_, rfl, named, free, by rwa [place named], ?_, by simp⟩
      rw [Files.put_of_ne (Ne.symm ne), Files.put_same, Files.put_same]
    · rw [hr]
      refine .inr ⟨_, rfl, .put free text, fun named => .inr ?_, fun named => ?_⟩
      · obtain ⟨ne, directory⟩ := occupied named
        rw [Files.put_of_ne (Ne.symm ne)] at directory
        exact (place named).trans directory
      · exact Files.put_of_ne (Ne.symm (occupied named).1)
  · rw [he]
    refine .inr ⟨_, rfl, .refl .., fun named => .inl (blocked ?_), fun _ => rfl⟩
    have last : Path.isNamed d.path = true := (Bool.and_eq_true_iff.mp named).1
    exact Path.namesFile_sibling last

/-- A replacement leaves the new text, and the sibling out of the way. -/
theorem replace_of_ok (h : d.replace mishap text = (files, .ok ())) :
    Path.namesFile d.path = true ∧ files d.path = .text text ∧ files d.sibling ≠ .directory := by
  have placed (h : d.exchange text = (files, .ok ())) : Path.namesFile d.path = true ∧
      files d.path = .text text ∧ files d.sibling ≠ .directory := by
    rcases d.exchange_cases text with ⟨_, he, named, -, -, placed⟩ | ⟨_, he, -⟩ <;> rw [he] at h
    · obtain rfl := congrArg Prod.fst h
      exact ⟨named, placed⟩
    · cases congrArg Prod.snd h
  match mishap with
  | none | some .read => exact placed h
  | some .makeFolder | some (.write _) | some .rename => cases congrArg Prod.snd h

/-- A replacement that fails leaves everything but the sibling as it was. -/
theorem sameBut_of_replace_error (h : d.replace mishap text = (files, .error fault)) :
    Files.SameBut d.sibling d.files files := by
  have same (h : d.exchange text = (files, .error fault)) :
      Files.SameBut d.sibling d.files files := by
    rcases d.exchange_cases text with ⟨_, he, -⟩ | ⟨_, he, same, -⟩ <;> rw [he] at h
    · cases congrArg Prod.snd h
    · obtain rfl := congrArg Prod.fst h
      exact same
  obtain rfl := congrArg Prod.fst h
  match mishap with
  | none | some .read => exact same h
  | some .makeFolder => exact .refl ..
  | some (.write left) => exact d.sameBut_leaving left
  | some .rename => exact d.sameBut_leaving (some text)

/-! ## Cases of a call -/

theorem load_snd (d : Document) (mishap : Option Mishap) : (d.load mishap).2 = d.read mishap := by
  unfold load
  cases d.read mishap <;> rfl

theorem load_cases (d : Document) (mishap : Option Mishap) :
    (∃ fault, d.load mishap = (d, .error fault)) ∨
    ∃ snapshot, d.read mishap = .ok snapshot ∧
      d.load mishap = ({ d with known := some snapshot }, .ok snapshot) := by
  unfold load
  cases d.read mishap with
  | error fault => exact .inl ⟨fault, rfl⟩
  | ok snapshot => exact .inr ⟨snapshot, rfl, rfl⟩

theorem write_cases (d : Document) (mishap : Option Mishap) (w : Write) :
    (∃ files fault, Files.SameBut d.sibling d.files files ∧
      d.write mishap w = ({ d with files := files }, .error fault)) ∨
    ∃ files snapshot, d.base mishap = .ok snapshot ∧
      d.replace mishap (snapshot.apply w).text = (files, .ok ()) ∧
      d.write mishap w =
        ({ d with files := files, known := some (snapshot.apply w) }, .ok ()) := by
  unfold write
  cases d.base mishap with
  | error fault => exact .inl ⟨d.files, fault, .refl .., rfl⟩
  | ok snapshot =>
    dsimp only
    rcases hp : d.replace mishap (snapshot.apply w).text with ⟨files, fault | _⟩
    · exact .inl ⟨files, fault, sameBut_of_replace_error hp, rfl⟩
    · exact .inr ⟨files, snapshot, rfl, hp, rfl⟩

/-! ## Calls that fail -/

/-- Two documents that have the same text and of which the same is known, whatever their siblings
hold. -/
structure Agrees (d d' : Document) : Prop where
  path : d'.path = d.path
  known : d'.known = d.known
  files : Files.SameBut d.sibling d.files d'.files

namespace Agrees

theorem refl (d : Document) : d.Agrees d := ⟨rfl, rfl, .refl ..⟩

theorem contents (h : d.Agrees d') (apart : d.Apart) : d'.contents = d.contents := by
  unfold Document.contents
  rw [h.path]
  exact h.files.others _ apart.ne

end Agrees

variable {call : Call}

/-- A call that fails changes nothing but the sibling. -/
theorem agrees_of_error (h : (d.perform mishap call).2 = .error fault) :
    d.Agrees (d.perform mishap call).1 := by
  cases call with
  | load =>
    rcases d.load_cases mishap with ⟨_, he⟩ | ⟨_, -, he⟩ <;> rw [perform, he] at h ⊢
    · exact .refl d
    · cases h
  | write w =>
    rcases d.write_cases mishap w with ⟨files, _, same, he⟩ | ⟨_, _, -, -, he⟩ <;>
      rw [perform, he] at h ⊢
    · exact ⟨rfl, rfl, same⟩
    · cases h
  | reopen => cases h

theorem leaving_congr (same : Files.SameBut d.sibling d.files files) (left : Option String) :
    Files.SameBut d.sibling (d.leaving left) ({ d with files := files }.leaving left) := by
  cases left with
  | none => exact same
  | some part =>
    have sibling : ({ d with files := files } : Document).sibling = d.sibling := rfl
    rcases d.files.write_cases d.sibling part with ⟨he, named, free⟩ | ⟨he, fails⟩
    · have he' := (same.write_eq free named part).trans he
      simpa [leaving, sibling, he, he', Except.toOption] using .refl ..
    · simpa [leaving, sibling, he, same.write_error fails part, Except.toOption] using same

theorem exchange_congr (same : Files.SameBut d.sibling d.files files) (text : String) :
    ({ d with files := files }.exchange text).2 = (d.exchange text).2 ∧
      Files.SameBut d.sibling (d.exchange text).1 ({ d with files := files }.exchange text).1 := by
  have sibling : ({ d with files := files } : Document).sibling = d.sibling := rfl
  rcases d.files.write_cases d.sibling text with ⟨he, named, free⟩ | ⟨he, fails⟩
  · have alike : { d with files := files }.exchange text = d.exchange text := by
      simp only [exchange, sibling, same.write_eq free named text, he]
    rw [alike]
    exact ⟨rfl, .refl ..⟩
  · simpa [exchange, sibling, he, same.write_error fails text] using same

theorem replace_congr (same : Files.SameBut d.sibling d.files files) (mishap : Option Mishap)
    (text : String) :
    ({ d with files := files }.replace mishap text).2 = (d.replace mishap text).2 ∧
      Files.SameBut d.sibling (d.replace mishap text).1
        ({ d with files := files }.replace mishap text).1 :=
  match mishap with
  | none | some .read => exchange_congr same text
  | some .makeFolder => ⟨rfl, same⟩
  | some (.write left) => ⟨rfl, leaving_congr same left⟩
  | some .rename => ⟨rfl, leaving_congr same (some text)⟩

/-- Calls are carried out alike, whatever the siblings hold. -/
theorem Agrees.perform (h : d.Agrees d') (apart : d.Apart) (mishap : Option Mishap) (call : Call) :
    (d'.perform mishap call).2 = (d.perform mishap call).2 ∧
      (d.perform mishap call).1.Agrees (d'.perform mishap call).1 := by
  have contents := h.contents apart
  obtain ⟨path, files', known⟩ := d'
  obtain ⟨rfl, rfl, same⟩ := h
  have reads : (⟨d.path, files', d.known⟩ : Document).read mishap = d.read mishap := by
    unfold Document.read
    rw [Files.read_congr contents]
  cases call with
  | load =>
    unfold Document.perform Document.load
    rw [reads]
    cases d.read mishap with
    | error _ => exact ⟨rfl, rfl, rfl, same⟩
    | ok _ => exact ⟨rfl, rfl, rfl, same⟩
  | write w =>
    have based : (⟨d.path, files', d.known⟩ : Document).base mishap = d.base mishap := by
      unfold Document.base
      rw [reads]
    unfold Document.perform Document.write
    rw [based]
    cases d.base mishap with
    | error _ => exact ⟨rfl, rfl, rfl, same⟩
    | ok snapshot =>
      obtain ⟨he, hf⟩ := replace_congr same mishap (snapshot.apply w).text
      dsimp only at he hf ⊢
      revert he hf
      rcases d.replace mishap (snapshot.apply w).text with ⟨left, result⟩
      rcases Document.replace _ mishap (snapshot.apply w).text with ⟨left', result'⟩
      rintro (rfl : result' = result) hf
      cases result' with
      | error _ => exact ⟨rfl, rfl, rfl, hf⟩
      | ok _ => exact ⟨rfl, rfl, rfl, hf⟩
  | reopen => exact ⟨rfl, rfl, rfl, same⟩

/-- A call does not move the document. -/
@[simp] theorem perform_path (d : Document) (mishap : Option Mishap) (call : Call) :
    (d.perform mishap call).1.path = d.path := by
  cases call with
  | load => rcases d.load_cases mishap with ⟨_, he⟩ | ⟨_, -, he⟩ <;> simp [perform, he]
  | write w =>
    rcases d.write_cases mishap w with ⟨_, _, -, he⟩ | ⟨_, _, -, -, he⟩ <;> simp [perform, he]
  | reopen => rfl

theorem Apart.perform (apart : d.Apart) (mishap : Option Mishap) (call : Call) :
    (d.perform mishap call).1.Apart := by
  unfold Apart sibling at *
  rwa [perform_path]

/-! ## Calls without mishaps -/

/-- The path names a file, and no directory stands in the place of the sibling. -/
structure Clear (d : Document) : Prop where
  named : Path.namesFile d.path = true
  sibling : d.files d.sibling ≠ .directory

theorem Clear.perform (clear : d.Clear) (mishap : Option Mishap) (call : Call) :
    (d.perform mishap call).1.Clear := by
  cases call with
  | load =>
    rcases d.load_cases mishap with ⟨_, he⟩ | ⟨_, -, he⟩ <;> rw [Document.perform, he] <;>
      exact ⟨clear.named, clear.sibling⟩
  | write w =>
    rcases d.write_cases mishap w with ⟨_, _, same, he⟩ | ⟨_, _, -, hp, he⟩ <;>
      rw [Document.perform, he]
    · exact ⟨clear.named, fun blocked => clear.sibling (same.blocked.mp blocked)⟩
    · exact ⟨clear.named, (replace_of_ok hp).2.2⟩
  | reopen => exact ⟨clear.named, clear.sibling⟩

/-! ## What is kept of a document -/

/-- What was last read from a document or written to it, or what stands there. -/
def held (d : Document) : Snapshot := d.known.getD ((d.read none).toOption.getD .empty)

theorem held_of_base {snapshot : Snapshot} (h : d.base none = .ok snapshot) :
    d.held = snapshot := by
  unfold base at h
  unfold held
  cases hk : d.known with
  | some known => rw [hk] at h; exact Except.ok.inj h
  | none =>
    rw [hk] at h
    simp [show d.read none = .ok snapshot from h, Except.toOption]

theorem held_of_load {snapshot : Snapshot} (h : (d.load none).2 = .ok snapshot) :
    (d.load none).1.held = snapshot := by
  rcases d.load_cases none with ⟨_, he⟩ | ⟨_, -, he⟩ <;> rw [he] at h ⊢
  · cases h
  · exact Except.ok.inj h

theorem read_none (d : Document) : d.read none = d.files.read d.path := if_neg (by simp)

/-- A path that names no file has nothing to read, whatever is left in the place of its sibling. -/
theorem held_of_not_named (unnamed : Path.namesFile d.path = false) :
    d.held = d.known.getD .empty := by
  unfold held
  rw [read_none]
  rcases d.files.read_of_not_named unnamed with he | he <;> rw [he] <;> rfl

/-- Without a mishap a write fails and leaves the text alone, or replaces it. -/
theorem write_none_cases (d : Document) (w : Write) :
    (∃ files fault, d.write none w = ({ d with files := files }, .error fault) ∧
      (Path.namesFile d.path = true → files d.path = d.files d.path)) ∨
    ∃ files snapshot, d.base none = .ok snapshot ∧ Path.namesFile d.path = true ∧
      files d.path = .text (snapshot.apply w).text ∧
      d.write none w = ({ d with files := files, known := some (snapshot.apply w) }, .ok ()) := by
  unfold write
  cases d.base none with
  | error fault => exact .inl ⟨d.files, fault, rfl, fun _ => rfl⟩
  | ok snapshot =>
    rcases d.exchange_cases (snapshot.apply w).text with ⟨files, he, named, -, -, placed, -⟩ |
      ⟨files, he, -, -, kept⟩
    · exact .inr ⟨files, snapshot, rfl, named, placed, by simp only [replace, he]⟩
    · exact .inl ⟨files, .io, by simp only [replace, he], kept⟩

/-- A write either takes effect or fails, and then the same is kept as before. -/
theorem held_write (d : Document) (w : Write) :
    (d.write none w).2 = .ok () ∧ (d.write none w).1.held = d.held.apply w ∨
      (∃ fault, (d.write none w).2 = .error fault) ∧ (d.write none w).1.held = d.held := by
  rcases d.write_none_cases w with ⟨files, fault, he, kept⟩ | ⟨files, snapshot, hb, -, -, he⟩ <;>
    rw [he]
  · refine .inr ⟨⟨fault, rfl⟩, ?_⟩
    cases named : Path.namesFile d.path with
    | false =>
      have unnamed : Path.namesFile ({ d with files := files } : Document).path = false := named
      rw [held_of_not_named named, held_of_not_named unnamed]
    | true =>
      have same : files (Path.place d.path) = d.files (Path.place d.path) := by
        rw [Path.place_of_namesFile named]
        exact kept named
      unfold held
      rw [read_none, read_none]
      dsimp only
      rw [Files.read_congr same]
  · rw [held_of_base hb]
    exact .inl ⟨rfl, rfl⟩

end Document

end Engagement
