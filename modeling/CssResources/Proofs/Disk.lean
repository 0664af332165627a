import CssResources.Disk
import CssResources.Proofs.Text.Encoding

/-!
# What a write changes on a disk

A path may be written in many ways, and it is followed anew each time that it is used. So it has
to be shown that a file is found where it was written: a path that leads a writer to a place
(`CssResources.Disk.LeadsTo`) leads a reader there **once the file is there**, whether it was
before or not (`CssResources.Disk.readBytes_put`). Directories stay, and so do the other files.

A write succeeds exactly if its path leads to a place, and it changes the file at this place
alone (`CssResources.Disk.writeText_eq_ok_iff`).
-/

namespace CssResources

namespace Disk

variable {d d' : Disk} {path t : Text} {place : Place} {bytes : ByteArray}

/-- **The disk with these bytes for the file at a place.** -/
def put (d : Disk) (place : Place) (bytes : ByteArray) : Disk :=
  { d with files := d.files.insert place bytes }

@[simp] theorem directories_put : (d.put place bytes).directories = d.directories := rfl

@[simp] theorem workingDirectory_put :
    (d.put place bytes).workingDirectory = d.workingDirectory := rfl

/-- The file at the place has the bytes, and the other files have those that they had. -/
theorem get?_files_put (other : Place) :
    (d.put place bytes).files.get? other =
      if place = other then some bytes else d.files.get? other :=
  OrderedMap.get?_insert d.files place other bytes

/-- **A path leads a writer to a place**: to the file there, or to where a file may be made. -/
def LeadsTo (d : Disk) (path : Text) (place : Place) : Prop :=
  (Route.ofText path >>= d.findToWrite) = .ok (.file place) ∨
    (Route.ofText path >>= d.findToWrite) = .ok (.vacant place)

/-! ### Writing -/

/-- **A write succeeds exactly if its path leads to a place**, and it gives the file there the
bytes of the text. -/
theorem writeText_eq_ok_iff :
    d.writeText path t = .ok d' ↔
      ∃ place, d.LeadsTo path place ∧ d' = d.put place (utf8Bytes t) := by
  rw [writeText]
  simp only [LeadsTo]
  cases Route.ofText path >>= d.findToWrite with
  | error fault => simp
  | ok target =>
    cases target with
    | directory => simp
    | file place =>
      simp only [Except.ok.injEq, Target.file.injEq, reduceCtorEq, or_false]
      exact ⟨fun h => ⟨place, rfl, h.symm⟩, fun ⟨_, hplace, h⟩ => by rw [hplace, h]; rfl⟩
    | vacant place =>
      simp only [Except.ok.injEq, Target.vacant.injEq, reduceCtorEq, false_or]
      exact ⟨fun h => ⟨place, rfl, h.symm⟩, fun ⟨_, hplace, h⟩ => by rw [hplace, h]; rfl⟩

/-! ### Reading what was written -/

/-- The last name leads to a file where no directory is in the way. -/
theorem follow_last {toDirectory : Bool} {here : Place} {name : Text} {names : List Text}
    (hdot : name ≠ ['.']) (hdots : name ≠ ['.', '.'])
    (hlong : ¬ Route.nameLimit < utf8Size name) (hlast : names.isEmpty && !toDirectory)
    (hdirectory : here ++ [name] ∉ d.directories)
    (hfile : (d.files.get? (here ++ [name])).isSome) :
    d.follow toDirectory here (name :: names) = .ok (.file (here ++ [name])) := by
  simp only [follow, if_neg hdot, if_neg hdots, if_neg hlong, if_neg hdirectory, if_pos hfile,
    if_pos hlast]

/-- Names that lead to a file, or to where one may be made, lead to the file once it is there.
On the way they lead through directories, which a write leaves as they are. -/
theorem follow_put {toDirectory : Bool} {here : Place} {names : List Text}
    (h : d.follow toDirectory here names = .ok (.file place) ∨
      d.follow toDirectory here names = .ok (.vacant place)) :
    (d.put place bytes).follow toDirectory here names = .ok (.file place) := by
  fun_induction d.follow toDirectory here names with
  | case1 => simp at h
  | case2 here names ih => simpa [follow] using ih h
  | case3 here names hdot ih => simpa [follow] using ih h
  | case4 => simp at h
  | case5 here name names hdot hdots hlong next hdirectory ih =>
    simp only [follow, if_neg hdot, if_neg hdots, if_neg hlong]
    rw [if_pos (show here ++ [name] ∈ (d.put place bytes).directories from hdirectory)]
    exact ih h
  | case6 here name names hdot hdots hlong next isLast hdirectory hfile hlast =>
    -- A file is there already.
    have hplace : here ++ [name] = place := by simpa [next] using h
    subst hplace
    exact follow_last hdot hdots hlong hlast hdirectory (by simp [get?_files_put])
  | case7 => simp at h
  | case8 here name names hdot hdots hlong next isLast hdirectory hfile hlast =>
    -- The file is made.
    have hplace : here ++ [name] = place := by simpa [next] using h
    subst hplace
    exact follow_last hdot hdots hlong hlast hdirectory (by simp [get?_files_put])
  | case9 => simp at h

/-- A route that leads a writer to a place leads a reader there once the file is there. -/
theorem find_put {r : Route}
    (h : d.findToWrite r = .ok (.file place) ∨ d.findToWrite r = .ok (.vacant place)) :
    (d.put place bytes).find r = .ok (.file place) := by
  cases hslash : r.endsInSlash with
  | true =>
    rw [findToWrite, if_pos hslash] at h
    cases hparent : d.find r.parent <;> simp [hparent, Except.map] at h
  | false =>
    rw [findToWrite, if_neg (by simp [hslash])] at h
    exact follow_put h

/-- **What was written at a path is read at the path.** -/
theorem readBytes_put (h : d.LeadsTo path place) :
    (d.put place bytes).readBytes path = .ok bytes := by
  rw [LeadsTo] at h
  rw [readBytes]
  cases hroute : Route.ofText path with
  | error fault => simp [hroute, bind, Except.bind] at h
  | ok r =>
    rw [hroute] at h
    have hfind : (Except.ok r >>= (d.put place bytes).find) = .ok (.file place) := find_put h
    simp [hfind, get?_files_put]

/-- The text of the file at a path, if there is a file and it holds a text. -/
def text? (d : Disk) (path : Text) : Option Text := (d.readBytes path).toOption.bind textOfUtf8?

/-- What was written at a path as a text is read at the path as this text. -/
theorem text?_put_utf8Bytes (h : d.LeadsTo path place) :
    (d.put place (utf8Bytes t)).text? path = some t := by
  rw [text?, readBytes_put h]
  exact textOfUtf8?_utf8Bytes t

/-- Where a text is read there is something. -/
theorem hasPath_of_text? (h : d.text? path = some t) : d.hasPath path = true := by
  rw [text?, readBytes] at h
  rw [hasPath]
  split at h <;> simp_all [Except.toOption]

end Disk

end CssResources
