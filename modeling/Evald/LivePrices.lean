import Evald.PriceTable
import Evald.Lib.Run

/-! # The live price table

The table that `serve` prices with: the baseline, and over it a file that is read again when
its mtime moves.  Any number of requests ask for the table while the file is edited; what
they do to it is broken down into the steps between which an edit may come.  The table is
always one that the file was once good for, and after a check it is that of the file as it
stands (`live_table`).
-/

namespace Evald.Pricing

open Evald.Lib

/-- The file at some time: what reading it and `metadata().modified()` give. -/
structure FileVersion where
  text : String
  mtime : Nat

/-- How often the file's metadata is looked at, at most. -/
def reloadCheckMs : Nat := 2000

/-- `struct Live`, with the mtime of its `Watch`. -/
structure Live where
  table : PriceTable
  watch : Option (Option Nat) := none
  watching : Bool := false
  nextCheckMs : Nat := 0

/-- Where `watch_file` stands. -/
inductive StartUp where
  | begun
  | loaded (table : PriceTable)
  | stored
  | remembered
  | done

/-- Where the holder of the watch's lock stands in `reload_if_changed`. -/
inductive Reload where
  | idle
  | changed
  | read (table : PriceTable)

/-- The table among its users.  The last five fields are for the statements below: every
version the file has had, whether its metadata was looked at since the last edit, the version
that start-up loaded, the mtime that start-up remembered of a version it had not loaded, and
when the checks were claimed. -/
structure LiveRun where
  live : Live
  startUp : StartUp := .begun
  reload : Reload := .idle
  /-- The threads on their way to the watch's lock. -/
  waiting : Nat := 0
  disk : Option FileVersion := none
  versions : List FileVersion := []
  checked : Bool := false
  startedFrom : Option Nat := none
  missed : Option Nat := none
  claims : List Nat := []

/-- What `metadata` gives of the path. -/
def LiveRun.mtime (s : LiveRun) : Option Nat := s.disk.map FileVersion.mtime

section

variable (deps : Deps) (baseline : PriceTable)

/-- `PriceTable::load_over_baseline` of what is at the path. -/
def loadOverBaseline (disk : Option FileVersion) : Option PriceTable := do
  let file ← disk
  let overlay ← (PriceTable.fromJson deps file.text).toOption
  return baseline.overlaidWith overlay

/-- One step of an editor, of start-up or of a request.  Two versions of the file never have
one mtime. -/
inductive LiveRunStep : LiveRun → LiveRun → Prop where
  | edit {s : LiveRun} (file : FileVersion) (moved : ∀ v ∈ s.versions, v.mtime ≠ file.mtime) :
      LiveRunStep s
        { s with disk := some file, versions := file :: s.versions, checked := false }
  | remove {s : LiveRun} : LiveRunStep s { s with disk := none, checked := false }
  -- `watch_file`
  | load {s : LiveRun} {table : PriceTable} (pc : s.startUp = .begun)
      (parsed : loadOverBaseline deps baseline s.disk = some table) :
      LiveRunStep s { s with startUp := .loaded table, startedFrom := s.mtime }
  | store {s : LiveRun} {table : PriceTable} (pc : s.startUp = .loaded table) :
      LiveRunStep s { s with live := { s.live with table := table }, startUp := .stored }
  | remember {s : LiveRun} (pc : s.startUp = .stored) :
      LiveRunStep s
        { s with
          live := { s.live with watch := some s.mtime }
          startUp := .remembered
          checked := true
          missed := if s.mtime = s.startedFrom then none else s.mtime }
  | beginServing {s : LiveRun} (pc : s.startUp = .remembered) :
      LiveRunStep s { s with live := { s.live with watching := true }, startUp := .done }
  -- `table`: one of the requests that find the check due gets to make it
  | claim {s : LiveRun} (now : Nat) (on : s.live.watching = true)
      (due : s.live.nextCheckMs ≤ now) :
      LiveRunStep s
        { s with
          live := { s.live with nextCheckMs := now + reloadCheckMs }
          waiting := s.waiting + 1
          claims := now :: s.claims }
  -- `reload_if_changed`
  | force {s : LiveRun} : LiveRunStep s { s with waiting := s.waiting + 1 }
  | notWatching {s : LiveRun} {n : Nat} (turn : s.waiting = n + 1) (free : s.reload = .idle)
      (unset : s.live.watch = none) : LiveRunStep s { s with waiting := n }
  | same {s : LiveRun} {n : Nat} (turn : s.waiting = n + 1) (free : s.reload = .idle)
      (unmoved : s.live.watch = some s.mtime) :
      LiveRunStep s { s with waiting := n, checked := true }
  | moved {s : LiveRun} {n : Nat} {before : Option Nat} (turn : s.waiting = n + 1)
      (free : s.reload = .idle) (was : s.live.watch = some before) (moved : s.mtime ≠ before) :
      LiveRunStep s
        { s with
          live := { s.live with watch := some s.mtime }
          waiting := n
          reload := .changed
          checked := true }
  | read {s : LiveRun} {table : PriceTable} (pc : s.reload = .changed)
      (parsed : loadOverBaseline deps baseline s.disk = some table) :
      LiveRunStep s { s with reload := .read table }
  | keep {s : LiveRun} (pc : s.reload = .changed)
      (failed : loadOverBaseline deps baseline s.disk = none) :
      LiveRunStep s { s with reload := .idle }
  | swap {s : LiveRun} {table : PriceTable} (pc : s.reload = .read table) :
      LiveRunStep s { s with live := { s.live with table := table }, reload := .idle }

/-- `Live::new`, whatever is at the path. -/
def LiveRun.Fresh (s : LiveRun) : Prop :=
  ∃ disk : Option FileVersion,
    s = { live := { table := baseline }, disk := disk, versions := disk.toList }

abbrev LiveReachable : LiveRun → Prop :=
  Reachable (LiveRun.Fresh baseline) (LiveRunStep deps baseline)

/-! ## The invariant -/

/-- The table of some version the file has had. -/
def LoadedFrom (versions : List FileVersion) (table : PriceTable) : Prop :=
  ∃ file ∈ versions, loadOverBaseline deps baseline (some file) = some table

/-- The table is that of the file, wherever the file is the version that was looked at. -/
def UpToDate (s : LiveRun) (table : PriceTable) : Prop :=
  ∀ file, s.disk = some file → s.live.watch = some (some file.mtime) →
    s.missed ≠ some file.mtime → ∀ loaded,
      loadOverBaseline deps baseline (some file) = some loaded → table = loaded

def ReloadOk (s : LiveRun) : Reload → Prop
  | .idle => UpToDate deps baseline s s.live.table
  | .changed => s.live.watch ≠ none
  | .read table => s.live.watch ≠ none ∧ LoadedFrom deps baseline s.versions table ∧
    UpToDate deps baseline s table

/-- Start-up works on a table of its own until the watch is there. -/
def StartUpOk (s : LiveRun) : StartUp → Prop
  | .begun => s.live.watch = none ∧ s.live.watching = false
  | .loaded table => s.live.watch = none ∧ s.live.watching = false ∧
    ∃ file ∈ s.versions, loadOverBaseline deps baseline (some file) = some table ∧
      s.startedFrom = some file.mtime
  | .stored => s.live.watch = none ∧ s.live.watching = false ∧
    ∃ file ∈ s.versions, loadOverBaseline deps baseline (some file) = some s.live.table ∧
      s.startedFrom = some file.mtime
  | .remembered => s.live.watch ≠ none ∧ s.live.watching = false
  | .done => s.live.watch ≠ none

structure LiveOk (s : LiveRun) : Prop where
  genuine : s.live.table = baseline ∨ LoadedFrom deps baseline s.versions s.live.table
  listed : ∀ file, s.disk = some file → file ∈ s.versions
  apart : ∀ v ∈ s.versions, ∀ w ∈ s.versions, v.mtime = w.mtime → v = w
  remembered : ∀ m, s.live.watch = some (some m) → ∃ v ∈ s.versions, v.mtime = m
  checked : s.checked = true → s.live.watch = some s.mtime
  startUp : StartUpOk deps baseline s s.startUp
  reload : ReloadOk deps baseline s s.reload
  claimed : ∀ c ∈ s.claims, c + reloadCheckMs ≤ s.live.nextCheckMs
  spaced : s.claims.Pairwise (fun later earlier => earlier + reloadCheckMs ≤ later)

variable {deps baseline} {s : LiveRun}

theorem loadOverBaseline_some {disk : Option FileVersion} {table : PriceTable}
    (parsed : loadOverBaseline deps baseline disk = some table) :
    ∃ file, disk = some file ∧ loadOverBaseline deps baseline (some file) = some table := by
  cases disk with
  | none => cases parsed
  | some file => exact ⟨file, rfl, parsed⟩

theorem LoadedFrom.edit {versions : List FileVersion} {table : PriceTable}
    (loaded : LoadedFrom deps baseline versions table) (file : FileVersion) :
    LoadedFrom deps baseline (file :: versions) table := by
  obtain ⟨v, member, parsed⟩ := loaded
  exact ⟨v, List.mem_cons_of_mem file member, parsed⟩

theorem StartUpOk.frame {s' : LiveRun} {pc : StartUp} (ok : StartUpOk deps baseline s pc)
    (table : s'.live.table = s.live.table) (watch : s'.live.watch = s.live.watch)
    (watching : s'.live.watching = s.live.watching) (started : s'.startedFrom = s.startedFrom)
    (more : ∀ v ∈ s.versions, v ∈ s'.versions) : StartUpOk deps baseline s' pc := by
  unfold StartUpOk at ok ⊢
  rw [table, watch, watching, started]
  cases pc with
  | begun => exact ok
  | loaded loaded =>
    obtain ⟨unset, off, v, member, parsed⟩ := ok
    exact ⟨unset, off, v, more v member, parsed⟩
  | stored =>
    obtain ⟨unset, off, v, member, parsed⟩ := ok
    exact ⟨unset, off, v, more v member, parsed⟩
  | remembered => exact ok
  | done => exact ok

/-- While there is no watch nobody reloads. -/
theorem ReloadOk.idle_of_unset {pc : Reload} (ok : ReloadOk deps baseline s pc)
    (unset : s.live.watch = none) : pc = .idle := by
  cases pc with
  | idle => rfl
  | changed => exact absurd unset ok
  | read table => exact absurd unset ok.1

theorem LiveOk.mtime_listed (ok : LiveOk deps baseline s) {m : Nat} (there : s.mtime = some m) :
    ∃ v ∈ s.versions, v.mtime = m := by
  obtain ⟨file, disk, same⟩ := Option.map_eq_some_iff.mp there
  exact ⟨file, ok.listed file disk, same⟩

/-- After an edit no table is up to date until the metadata is looked at. -/
theorem LiveOk.edit (ok : LiveOk deps baseline s) {file : FileVersion}
    (moved : ∀ v ∈ s.versions, v.mtime ≠ file.mtime) :
    LiveOk deps baseline
      { s with disk := some file, versions := file :: s.versions, checked := false } := by
  -- the time of the new version was never seen, so no table stands for it yet
  have stale : ∀ table, UpToDate deps baseline
      { s with disk := some file, versions := file :: s.versions, checked := false } table := by
    intro table file' there watched
    cases there
    obtain ⟨v, member, same⟩ := ok.remembered _ watched
    exact absurd same (moved v member)
  have more : ∀ v ∈ s.versions, v ∈ file :: s.versions :=
    fun v member => List.mem_cons_of_mem file member
  refine ⟨ok.genuine.imp_right (fun loaded => loaded.edit file), ?_, ?_, ?_, nofun,
    ok.startUp.frame rfl rfl rfl rfl more, ?_, ok.claimed, ok.spaced⟩
  · intro file' there
    cases there
    exact List.mem_cons_self
  · intro v vMember w wMember same
    cases vMember with
    | head =>
      cases wMember with
      | head => rfl
      | tail _ old => exact absurd same.symm (moved w old)
    | tail _ vOld =>
      cases wMember with
      | head => exact absurd same (moved v vOld)
      | tail _ wOld => exact ok.apart v vOld w wOld same
  · intro m watched
    obtain ⟨v, member, same⟩ := ok.remembered m watched
    exact ⟨v, more v member, same⟩
  -- a reload that is under way may still hold what it read before
  · have reload := ok.reload
    change ReloadOk deps baseline _ s.reload
    cases pc : s.reload with
    | idle => exact stale _
    | changed =>
      rw [pc] at reload
      exact reload
    | read table =>
      rw [pc] at reload
      exact ⟨reload.1, reload.2.1.edit file, stale table⟩

theorem LiveOk.remove (ok : LiveOk deps baseline s) :
    LiveOk deps baseline { s with disk := none, checked := false } := by
  refine ⟨ok.genuine, nofun, ok.apart, ok.remembered, nofun, ok.startUp, ?_, ok.claimed,
    ok.spaced⟩
  have reload := ok.reload
  change ReloadOk deps baseline _ s.reload
  cases pc : s.reload with
  | idle => exact nofun
  | changed =>
    rw [pc] at reload
    exact reload
  | read table =>
    rw [pc] at reload
    exact ⟨reload.1, reload.2.1, nofun⟩

/-- Start-up remembers the mtime after it has loaded the file. -/
theorem LiveOk.remember (ok : LiveOk deps baseline s) (pc : s.startUp = .stored) :
    LiveOk deps baseline
      { s with
        live := { s.live with watch := some s.mtime }
        startUp := .remembered
        checked := true
        missed := if s.mtime = s.startedFrom then none else s.mtime } := by
  have startUp := ok.startUp
  rw [pc] at startUp
  obtain ⟨unset, off, v, member, parsed, started⟩ := startUp
  have idle := ok.reload.idle_of_unset unset
  refine ⟨ok.genuine, ok.listed, ok.apart, ?_, fun _ => rfl, ⟨nofun, off⟩, ?_, ok.claimed,
    ok.spaced⟩
  · intro m watched
    exact ok.mtime_listed (Option.some.inj watched)
  · change ReloadOk deps baseline _ s.reload
    rw [idle]
    intro file there watched seen loaded parsed'
    change (if s.mtime = s.startedFrom then none else s.mtime) ≠ _ at seen
    have mtime : s.mtime = some file.mtime := congrArg (Option.map FileVersion.mtime) there
    split at seen
    · next same =>
      -- no edit between the load and the metadata
      rw [mtime, started, Option.some.injEq] at same
      rw [← ok.apart file (ok.listed file there) v member same] at parsed
      exact Option.some.inj (parsed.symm.trans parsed')
    · exact absurd mtime seen

theorem LiveOk.step {s' : LiveRun} (ok : LiveOk deps baseline s)
    (stepped : LiveRunStep deps baseline s s') : LiveOk deps baseline s' := by
  have reload := ok.reload
  have startUp := ok.startUp
  cases stepped with
  | edit file moved => exact ok.edit moved
  | remove => exact ok.remove
  | @load table pc parsed =>
    rw [pc] at startUp
    obtain ⟨file, there, parsed'⟩ := loadOverBaseline_some parsed
    refine { ok with startUp := ⟨startUp.1, startUp.2, file, ok.listed file there, parsed', ?_⟩ }
    exact congrArg (Option.map FileVersion.mtime) there
  | @store table pc =>
    rw [pc] at startUp
    obtain ⟨unset, off, v, member, parsed, started⟩ := startUp
    have idle := reload.idle_of_unset unset
    refine { ok with genuine := .inr ⟨v, member, parsed⟩, startUp := ?_, reload := ?_ }
    · exact ⟨unset, off, v, member, parsed, started⟩
    · change ReloadOk deps baseline _ s.reload
      rw [idle]
      intro file there watched
      exact absurd (unset.symm.trans watched) nofun
  | remember pc => exact ok.remember pc
  | beginServing pc =>
    rw [pc] at startUp
    exact { ok with startUp := startUp.1 }
  | claim now on due =>
    refine { ok with
      startUp := ok.startUp.frame rfl rfl rfl rfl (fun v member => member)
      claimed := ?_
      spaced := ?_ }
    · intro c member
      cases member with
      | head => exact le_rfl
      | tail _ old =>
        have before := ok.claimed c old
        exact (before.trans due).trans (Nat.le_add_right now _)
    · exact List.pairwise_cons.mpr ⟨fun c old => (ok.claimed c old).trans due, ok.spaced⟩
  | force => exact { ok with }
  | notWatching turn free unset => exact { ok with }
  | same turn free unmoved => exact { ok with checked := fun _ => unmoved }
  | @moved n before turn free was moved =>
    refine { ok with
      remembered := fun m watched => ok.mtime_listed (Option.some.inj watched)
      checked := fun _ => rfl
      startUp := ?_
      reload := nofun }
    change StartUpOk deps baseline _ s.startUp
    cases pc : s.startUp with
    | begun | loaded table | stored =>
      rw [pc] at startUp
      exact absurd (startUp.1.symm.trans was) nofun
    | remembered =>
      rw [pc] at startUp
      exact ⟨nofun, startUp.2⟩
    | done => exact nofun
  | @read table pc parsed =>
    rw [pc] at reload
    obtain ⟨file, there, parsed'⟩ := loadOverBaseline_some parsed
    refine { ok with reload := ⟨reload, ⟨file, ok.listed file there, parsed'⟩, ?_⟩ }
    intro file' there' watched seen loaded parsed''
    -- the version that was looked at is the one that was read
    cases there.symm.trans there'
    exact Option.some.inj (parsed'.symm.trans parsed'')
  | keep pc failed =>
    refine { ok with reload := ?_ }
    intro file there watched seen loaded parsed
    rw [there] at failed
    exact absurd (failed.symm.trans parsed) nofun
  | @swap table pc =>
    rw [pc] at reload
    obtain ⟨set, loaded, fresh⟩ := reload
    refine { ok with genuine := .inr loaded, startUp := ?_, reload := fresh }
    change StartUpOk deps baseline _ s.startUp
    cases started : s.startUp with
    | begun | loaded table' | stored =>
      rw [started] at startUp
      exact absurd startUp.1 set
    | remembered =>
      rw [started] at startUp
      exact startUp
    | done => exact set

theorem LiveOk.fresh (fresh : s.Fresh baseline) : LiveOk deps baseline s := by
  obtain ⟨disk, rfl⟩ := fresh
  refine ⟨.inl rfl, ?_, ?_, nofun, nofun, ⟨rfl, rfl⟩, ?_, nofun, .nil⟩
  · intro file there
    exact Option.mem_toList.mpr there
  · intro v vMember w wMember _
    have first : disk = some v := Option.mem_toList.mp vMember
    have second : disk = some w := Option.mem_toList.mp wMember
    exact Option.some.inj (first.symm.trans second)
  · intro file there watched
    exact absurd watched nofun

/-- However requests, reloads and edits interleave, the table in force is the baseline or the
baseline under a version the file once had.  Once the metadata was looked at since the last
edit and no reload is under way, it is that of the file as it stands, if that can be read;
unless the file stands as it was edited between the load and the first look of start-up.
The checks of the requests are two seconds apart. -/
theorem live_table (reached : LiveReachable deps baseline s) :
    (s.live.table = baseline ∨ LoadedFrom deps baseline s.versions s.live.table) ∧
    (∀ table, s.reload = .idle → s.checked = true → (s.missed = none ∨ s.missed ≠ s.mtime) →
      loadOverBaseline deps baseline s.disk = some table → s.live.table = table) ∧
    s.claims.Pairwise (fun later earlier => earlier + reloadCheckMs ≤ later) := by
  have ok : LiveOk deps baseline s := by
    apply Reachable.invariant _ _ reached
    · intro s fresh
      exact LiveOk.fresh fresh
    · intro s s' ok stepped
      exact ok.step stepped
  refine ⟨ok.genuine, fun table idle checked seen parsed => ?_, ok.spaced⟩
  have fresh := ok.reload
  rw [idle] at fresh
  obtain ⟨file, there, parsed'⟩ := loadOverBaseline_some parsed
  have mtime : s.mtime = some file.mtime := congrArg (Option.map FileVersion.mtime) there
  refine fresh file there (mtime ▸ ok.checked checked) ?_ table parsed'
  rcases seen with none | other
  · rw [none]
    exact nofun
  · exact mtime ▸ other

end

/-- A host to which every file is a table of no models. -/
def emptyHost : Deps := { Deps.hashing with parseJson := fun _ => some (.obj []) }

def noPrices : PriceTable := { version := "b", models := ∅ }

/-- A file is loaded, edited and loaded again by the next request. -/
theorem live_table_edited : ∃ s : LiveRun, LiveReachable emptyHost noPrices s ∧
    s.disk = some ⟨"two", 2⟩ ∧
      some s.live.table = loadOverBaseline emptyHost noPrices (some ⟨"two", 2⟩) := by
  have begun : LiveReachable emptyHost noPrices
      { live := { table := noPrices }, disk := some ⟨"one", 1⟩, versions := [⟨"one", 1⟩] } :=
    .start ⟨some ⟨"one", 1⟩, rfl⟩
  have stored := Reachable.next (Reachable.next begun (.load rfl rfl)) (.store rfl)
  have started := Reachable.next (Reachable.next stored (.remember rfl)) (.beginServing rfl)
  have edited := Reachable.next started (.edit ⟨"two", 2⟩ (by simp))
  have claimed := Reachable.next edited (.claim 7 rfl (Nat.zero_le 7))
  have looked := Reachable.next claimed (.moved rfl rfl rfl (by simp [LiveRun.mtime]))
  have swapped := Reachable.next (Reachable.next looked (.read rfl rfl)) (.swap rfl)
  refine ⟨_, swapped, rfl, ?_⟩
  exact congrArg some ((live_table swapped).2.1 _ rfl rfl (.inl rfl) rfl)

end Evald.Pricing
