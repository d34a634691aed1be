import BulkEdit.Proofs.Disk.Files

/-!
# Writes stay within the root

However a path is spelled and whatever links it leads through, a write through a guard changes the text of
one file, which is below the root and below nothing that was forbidden when the guard was made, or it
changes nothing. The new file that the text goes into first is gone in either case. Nothing outside of the
root is read either.
-/

namespace BulkEdit.Disk

/-- What a write of a text leaves of a disk: the file at a location has that text, paths that led there
lead there, and all else is as it was. -/
structure WroteText (before after : Tree) (location : Location) (text : Text) : Prop where
  file : ∃ mode body, before.get? location = some (.file mode body) ∧
    after.get? location = some (.file mode (.text text))
  others : ∀ other, other ≠ location → after.get? other = before.get? other
  links : ∀ other target,
    after.get? other = some (.link target) ↔ before.get? other = some (.link target)
  entries : after.entries.map Prod.fst = before.entries.map Prod.fst
  reads : ∀ folder path, before.resolveFrom folder path = .ok location →
    after.readFrom folder path = .ok text

namespace Tree

variable {tree : Tree} {location : Location} {mode : Nat} {body : Body}

theorem map_fst_putIn {entries : List (Location × Node)}
    (h : ∃ entry ∈ entries, entry.1 = location) (node : Node) :
    (putIn location node entries).map Prod.fst = entries.map Prod.fst := by
  induction entries with
  | nil =>
    obtain ⟨entry, hmem, -⟩ := h
    cases hmem
  | cons first rest ih =>
    rw [putIn]
    split
    next he => rw [List.map_cons, List.map_cons, he]
    next he =>
      obtain ⟨entry, hmem, hlocation⟩ := h
      rcases List.mem_cons.mp hmem with rfl | hmem
      · exact absurd hlocation he
      · rw [List.map_cons, List.map_cons, ih ⟨entry, hmem, hlocation⟩]

theorem wroteText_put (h : tree.get? location = some (.file mode body)) (text : Text) :
    WroteText tree (tree.put location (.file mode (.text text))) location text where
  file := ⟨mode, body, h, get?_put_self (ne_nil_of_file h) tree _⟩
  others other hother := get?_put_of_ne hother tree _
  links other target := by
    rw [get?_put_file h]
    split
    next he =>
      rw [he, h]
      exact ⟨fun hl => (nomatch hl), fun hl => (nomatch hl)⟩
    next => exact Iff.rfl
  entries := map_fst_putIn (exists_entry_of_get? h (ne_nil_of_file h)) _
  reads folder path hpath := by
    have hshape : (tree.put location (.file mode (.text text))).shape = tree.shape := shape_put h
    rw [readFrom, resolveFrom_of_shape hshape, hpath]
    exact textAt_eq_ok_iff.mpr ⟨mode, get?_put_self (ne_nil_of_file h) tree _⟩

end Tree

namespace Guard

variable {guard : Guard} {made tree : Tree} {root path : Path} {location : Location} {text : Text}

/-- A write succeeds on the files that the guard was made to let through. -/
theorem write_ok_iff (hguard : ofRoot made root = .ok guard) (text : Text) :
    (∃ done, guard.write path text tree = .ok () done) ↔ ∃ location mode body,
      tree.resolve (guard.rootPath.join path) = .ok location ∧ guard.Within made location ∧
      tree.get? location = some (.file mode body) := by
  constructor
  · rintro ⟨done, hdone⟩
    rcases write_cases guard path text tree with
      ⟨failure, hwrite⟩ | ⟨location, mode, body, hcheck, hfile, -⟩
    · rw [hwrite] at hdone
      cases hdone
    · obtain ⟨hresolve, hwithin⟩ := (check_eq_ok_iff hguard).mp hcheck
      exact ⟨location, mode, body, hresolve, hwithin, hfile⟩
  · rintro ⟨location, mode, body, hresolve, hwithin, hfile⟩
    exact ⟨_, write_of_file ((check_eq_ok_iff hguard).mpr ⟨hresolve, hwithin⟩) hfile text⟩

/-- A write that succeeds rewrites the file that its path leads to, which is within the root, and one that
fails changes nothing. A read gives no text but that of a file within the root. -/
theorem write_confined (hguard : ofRoot made root = .ok guard) (tree : Tree) (path : Path)
    (text : Text) :
    (∀ done, guard.access.write path text tree = .ok () done →
      ∃ location, tree.resolve (guard.rootPath.join path) = .ok location ∧
        guard.Within made location ∧ WroteText tree done location text ∧
        ∀ other, tree.resolve (guard.rootPath.join other) = .ok location →
          guard.access.read other done = .ok text done) ∧
    (∀ failure done, guard.access.write path text tree = .error failure done → done = tree) ∧
    ((∃ done, guard.access.write path text tree = .ok () done) ↔ ∃ location mode body,
      tree.resolve (guard.rootPath.join path) = .ok location ∧ guard.Within made location ∧
      tree.get? location = some (.file mode body)) ∧
    (∀ content later, guard.access.read path tree = .ok content later → later = tree ∧
      ∃ location mode, tree.resolve (guard.rootPath.join path) = .ok location ∧
        guard.Within made location ∧ tree.get? location = some (.file mode (.text content))) ∧
    ∀ location, tree.resolve (guard.rootPath.join path) = .ok location → ¬ guard.root <+: location →
      let failure := .rejected (.outsideRoot location.path guard.rootPath)
      guard.access.read path tree = .error failure tree ∧
      guard.access.write path text tree = .error failure tree := by
  refine ⟨fun done hdone => ?_, fun failure done hdone => ?_, write_ok_iff hguard text,
    fun content later hread => ?_, ?_⟩
  · rcases write_cases guard path text tree with
      ⟨failure, hwrite⟩ | ⟨location, mode, body, hcheck, hfile, hwrite⟩
    · cases hwrite.symm.trans hdone
    · cases hwrite.symm.trans hdone
      obtain ⟨hresolve, hwithin⟩ := (check_eq_ok_iff hguard).mp hcheck
      refine ⟨location, hresolve, hwithin, Tree.wroteText_put hfile text, fun other hother => ?_⟩
      have hsame : guard.SameFile tree path other :=
        sameFile_iff.mpr ⟨location, hcheck, (check_eq_ok_iff hguard).mpr ⟨hother, hwithin⟩⟩
      rw [show guard.access.read other _ = _ from read_eq guard other _, contents_put hcheck hfile,
        if_pos hsame]
      rfl
  · rcases write_cases guard path text tree with
      ⟨failure, hwrite⟩ | ⟨location, mode, body, -, -, hwrite⟩
    · cases hwrite.symm.trans hdone
      rfl
    · cases hwrite.symm.trans hdone
  · rw [show guard.access.read path tree = _ from read_eq guard path tree] at hread
    cases hcontents : guard.contents tree path with
    | error failure =>
      rw [hcontents] at hread
      cases hread
    | ok text =>
      rw [hcontents] at hread
      cases hread
      obtain ⟨location, mode, hcheck, hfile⟩ := contents_eq_ok_iff.mp hcontents
      obtain ⟨hresolve, hwithin⟩ := (check_eq_ok_iff hguard).mp hcheck
      exact ⟨rfl, location, mode, hresolve, hwithin, hfile⟩
  · intro location hresolve houtside
    have hcheck := check_of_outside hresolve houtside
    have hresolved : ∀ path fault, Rejection.outsideRoot location.path guard.rootPath ≠
        .unresolved path fault := fun _ _ he => nomatch he
    exact ⟨read_of_rejected hcheck hresolved, write_of_rejected hcheck hresolved text⟩

/-- A write through two links with two dots on the way, beside a link to itself and one that leads out of the
root, to a directory whose name begins like that of the root. -/
theorem write_confined_through_links :
    let git : Text := ".git".toList
    let tree : Tree := ⟨[([['w']], .directory), ([['w'], ['a']], .file 420 (.text ['x'])),
      ([['w'], ['d']], .directory), ([['w'], ['d'], ['l']], .link "../m".toList),
      ([['w'], ['m']], .link ['a']), ([['w'], ['o']], .link ['o']),
      ([['w'], ['e']], .link "../ww/s".toList), ([['w'], git], .directory),
      ([['w', 'w']], .directory), ([['w', 'w'], ['s']], .file 384 (.text ['x']))]⟩
    let guard : Guard := ⟨[['w']], [[['w'], git]]⟩
    let path : Path := ⟨"d/../d/l".toList⟩
    let failure := .rejected (.outsideRoot ⟨"/ww/s".toList⟩ ⟨"/w".toList⟩)
    ofRoot tree ⟨"/w".toList⟩ = .ok guard ∧
    (∃ done, guard.access.write path ['y'] tree = .ok () done ∧
      done.get? [['w'], ['a']] = some (.file 420 (.text ['y'])) ∧
      done.get? [['w'], ['o']] = some (.link ['o']) ∧
      done.get? [['w', 'w'], ['s']] = some (.file 384 (.text ['x'])) ∧
      guard.access.read ⟨['m']⟩ done = .ok ['y'] done) ∧
    guard.access.read ⟨['e']⟩ tree = .error failure tree ∧
    guard.access.write ⟨['e']⟩ ['y'] tree = .error failure tree := by
  intro git tree guard path failure
  have hguard : ofRoot tree ⟨"/w".toList⟩ = .ok guard := by decide +kernel
  have hcheck : guard.check tree path = .ok [['w'], ['a']] := by decide +kernel
  have hfile : tree.get? [['w'], ['a']] = some (.file 420 (.text ['x'])) := by decide +kernel
  have hother : tree.resolve (guard.rootPath.join ⟨['m']⟩) = .ok [['w'], ['a']] := by decide +kernel
  have hout : tree.resolve (guard.rootPath.join ⟨['e']⟩) = .ok [['w', 'w'], ['s']] := by
    decide +kernel
  obtain ⟨hresolve, hwithin⟩ := (check_eq_ok_iff hguard).mp hcheck
  obtain ⟨hleft, -, hsucceeds, -, -⟩ := write_confined hguard tree path ['y']
  obtain ⟨done, hdone⟩ := hsucceeds.mpr ⟨_, 420, .text ['x'], hresolve, hwithin, hfile⟩
  obtain ⟨location, hlocation, -, hwrote, hreads⟩ := hleft done hdone
  have hat : location = [['w'], ['a']] := Except.ok.inj (hlocation.symm.trans hresolve)
  subst hat
  obtain ⟨mode, body, hbefore, hafter⟩ := hwrote.file
  have hmode : mode = 420 := by
    rw [hfile] at hbefore
    exact (Node.file.inj (Option.some.inj hbefore)).1.symm
  rw [hmode] at hafter
  obtain ⟨-, -, -, -, houtside⟩ := write_confined hguard tree ⟨['e']⟩ ['y']
  refine ⟨hguard, ⟨done, hdone, hafter, ?_, ?_, hreads ⟨['m']⟩ hother⟩,
    houtside [['w', 'w'], ['s']] hout (by decide)⟩
  · exact (hwrote.links _ _).mpr (by decide +kernel)
  · exact (hwrote.others _ (by decide)).trans (by decide +kernel)

end Guard

end BulkEdit.Disk
