import BulkEdit.Proofs.Disk.Files
import BulkEdit.Proofs.Disk.Finding

/-!
# What a commit leaves alone on disk

A commit changes no file but those that its paths lead to. On disk these are the selected files and the
files that links in the session's list lead to, whether these are selected themselves or not.
-/

namespace BulkEdit.Disk.Guard

variable {guard : Guard} {tree opened : Tree} {patterns : List Text}
  {selection : Selection} {session : Session} {names location : Location}

/-- A commit leaves every location alone that none of its paths leads to, also if it fails. -/
theorem get?_after_commit (session : Session)
    (h : ∀ file ∈ session.files, guard.check tree file ≠ .ok location) :
    ((session.commit guard.access).after tree).get? location = tree.get? location := by
  -- Paths lead on to where they led at first, as a write changes no more than a text.
  have hkeeps : (session.commit guard.access).Keeps fun now =>
      now.shape = tree.shape ∧ now.get? location = tree.get? location := by
    refine Session.keeps_commit (fun _ _ => guard.keeps_read _) fun file hfile text => ?_
    refine keeps_write fun {now written mode body} hnow hcheck hnode => ?_
    obtain ⟨hshape, hget⟩ := hnow
    refine ⟨(Tree.shape_put hnode).trans hshape, ?_⟩
    rw [check_of_shape hshape] at hcheck
    have hother : location ≠ written := fun he => h file hfile (he ▸ hcheck)
    rw [Tree.get?_put_file hnode, if_neg hother, hget]
  exact (hkeeps tree ⟨rfl, rfl⟩).2

/-- A file that is not selected by its names from the root is left as it is, whatever is staged and however
the commit ends, unless a link leads to it that is among the paths of the session. -/
theorem unselected_file_kept {β : Type} (passes : List (Session.Pass β)) (memo : β)
    (hwf : tree.WellFormed) (hreal : tree.IsReal guard.root)
    (hselection : Selection.ofPatterns patterns = .ok selection)
    (hopen : Session.ofPatterns guard.access patterns tree = .ok session opened)
    {mode : Nat} {body : Body} (hfile : tree.get? (guard.root ++ names) = some (.file mode body))
    (hunselected : selection.selects (Text.joinWith ['/'] names) = false)
    (hlinks : ∀ other target, guard.pathOf other ∈ session.files →
      tree.get? (guard.root ++ other) = some (.link target) →
      tree.resolve (guard.pathOf other) ≠ .ok (guard.root ++ names)) :
    let state := session.afterPasses guard.access passes ⟨opened, session.staging, memo⟩
    (((⟨session.files, state.staging⟩ : Session).commit guard.access).after state.store).get?
      (guard.root ++ names) = some (.file mode body) := by
  intro state
  obtain ⟨rfl, selection', hselection', hfound⟩ := find_ok hwf hreal (find_of_ofPatterns hopen).1
  obtain rfl : selection = selection' := by
    rw [hselection] at hselection'
    exact Except.ok.inj hselection'
  have hstore : state.store = opened :=
    Session.store_afterPasses (P := (· = opened)) (fun _ _ => guard.keeps_read _) passes rfl
  rw [hstore, get?_after_commit, hfile]
  intro file hmem hcheck
  obtain ⟨other, rfl, hfinds⟩ := hfound file hmem
  rcases hfinds.leads_to hwf hcheck with hsame | ⟨target, hlink, hresolve⟩
  · rw [List.append_cancel_left hsame, hfinds.selected] at hunselected
    cases hunselected
  · exact hlinks other target hmem hlink hresolve

/-- A file that is excluded, beside a selected file and a selected link to that one. A link to the excluded
file stands where no walk goes. -/
theorem unselected_file_kept_beside_link :
    let git : Text := ".git".toList
    let tree : Tree := ⟨[([['w']], .directory), ([['w'], git], .directory),
      ([['w'], git, ['m']], .link "../k".toList), ([['w'], ['a']], .file 420 (.text ['x'])),
      ([['w'], ['k']], .file 420 (.text ['x'])), ([['w'], ['l']], .link ['a'])]⟩
    let guard : Guard := ⟨[['w']], [[['w'], git]]⟩
    let patterns : List Text := ["**".toList, ['!', 'k']]
    let session : Session := ⟨[⟨"/w/a".toList⟩, ⟨"/w/l".toList⟩], .empty⟩
    let passes : List (Session.Pass Unit) :=
      [.files fun _ memo => .call ⟨['x'], ['y'], false⟩ fun _ => .done memo]
    let state := session.afterPasses guard.access passes ⟨tree, session.staging, ()⟩
    let done := ((⟨session.files, state.staging⟩ : Session).commit guard.access).after state.store
    tree.WellFormed ∧ ofRoot tree ⟨"/w".toList⟩ = .ok guard ∧
    Session.ofPatterns guard.access patterns tree = .ok session tree ∧
    (Selection.ofPatterns patterns).toOption.map (·.selects ['k']) = some false ∧
    tree.resolve ⟨"/w/.git/m".toList⟩ = .ok [['w'], ['k']] ∧
    done.get? [['w'], ['a']] = some (.file 420 (.text ['y'])) ∧
    done.get? [['w'], ['k']] = some (.file 420 (.text ['x'])) := by
  intro git tree guard patterns session passes state done
  have hwf : tree.WellFormed := by decide +kernel
  have hguard : ofRoot tree ⟨"/w".toList⟩ = .ok guard := by rfl
  have hopen : Session.ofPatterns guard.access patterns tree = .ok session tree := by rfl
  have hk : (Selection.ofPatterns patterns).toOption.map (·.selects ['k']) = some false := by
    decide +kernel
  obtain ⟨selection, hselection, hunselected⟩ := Option.map_eq_some_iff.mp hk
  have hleads : ∀ file ∈ session.files, (tree.resolve file).toOption ≠ some [['w'], ['k']] := by
    decide +kernel
  have hfile : tree.get? (guard.root ++ [['k']]) = some (.file 420 (.text ['x'])) := rfl
  have hkept := unselected_file_kept passes () hwf (isReal_root hwf hguard)
    (toOption_eq_some_iff.mp hselection) hopen hfile hunselected
  refine ⟨hwf, hguard, hopen, hk, by rfl, by decide +kernel, hkept fun other _ hmem _ hresolve => ?_⟩
  exact hleads _ hmem (toOption_eq_some_iff.mpr hresolve)

/-- A file that is excluded, and a selected link to it. The commit changes the file. -/
theorem excluded_file_rewritten_through_link :
    let tree : Tree := ⟨[([['w']], .directory), ([['w'], ['k']], .file 420 (.text ['x'])),
      ([['w'], ['l']], .link ['k'])]⟩
    let guard : Guard := ⟨[['w']], []⟩
    let patterns : List Text := [['*'], ['!', 'k']]
    let session : Session := ⟨[⟨"/w/l".toList⟩], .empty⟩
    let passes : List (Session.Pass Unit) :=
      [.files fun _ memo => .call ⟨['x'], ['y'], false⟩ fun _ => .done memo]
    let state := session.afterPasses guard.access passes ⟨tree, session.staging, ()⟩
    let done := ((⟨session.files, state.staging⟩ : Session).commit guard.access).after state.store
    tree.WellFormed ∧ ofRoot tree ⟨"/w".toList⟩ = .ok guard ∧
    Session.ofPatterns guard.access patterns tree = .ok session tree ∧
    (Selection.ofPatterns patterns).toOption.map (·.selects ['k']) = some false ∧
    tree.get? [['w'], ['k']] = some (.file 420 (.text ['x'])) ∧
    done.get? [['w'], ['k']] = some (.file 420 (.text ['y'])) := by
  intro tree guard patterns session passes state done
  exact ⟨by decide +kernel, by rfl, by rfl, by decide +kernel, rfl, by decide +kernel⟩

end BulkEdit.Disk.Guard
