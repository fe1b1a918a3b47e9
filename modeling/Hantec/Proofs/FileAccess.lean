import Hantec.Proofs.Run.Ending

/-!
# Files out of reach

A run that may not use files, does not trace and has a loader that does not read the disk is
confined: it does the same on every disk, and it leaves the disk as it was. This holds whatever way
a script takes to the builtins on files.
-/

namespace Hantec

def State.withDisk (s : State) (d : Disk) : State := { s with world := s.world.withDisk d }

def Ending.withDisk {α : Type} (e : Ending α) (d : Disk) : Ending α :=
  ⟨e.result, e.state.withDisk d⟩

/-! ## Loaders -/

/-- Whether modules may come from files. -/
def Loader.usesDisk : Loader → Bool
  | .files _ | .site _ _ => true
  | .absent | .function _ _ | .web _ _ => false

/-- The loader neither reads the disk nor writes to it. -/
def Config.LoadsOffDisk (c : Config) : Prop := ∀ path, World.IgnoresDisk (c.loadFrom path)

theorem Config.loadsOffDisk_of_loader {c : Config} (h : c.loader.usesDisk = false) :
    c.LoadsOffDisk := by
  intro path w d
  cases hloader : c.loader with
  | absent => simp [loadFrom, hloader, Loader.load]
  | function naps answer => simp [loadFrom, hloader, Loader.load]
  | web base follows =>
    simp only [loadFrom, hloader, Loader.load, World.fetch]
    cases base <;> dsimp only [World.withDisk] <;> split <;> rfl
  | files base => simp [hloader, Loader.usesDisk] at h
  | site base follows => simp [hloader, Loader.usesDisk] at h

/-! ## Runs on two disks -/

/-- A change that ignores the disk leaves it as it is. -/
theorem World.IgnoresDisk.disk {α : Type} {f : World → α × World} (hf : IgnoresDisk f)
    (w : World) : (f w).2.disk = w.disk :=
  congrArg (fun x => x.2.disk) (hf w w.disk)

/-- Worlds that are the same but for their disks, which are given. -/
def World.OnDisks (d d' : Disk) (w w' : World) : Prop := w.disk = d ∧ w' = w.withDisk d'

theorem World.IgnoresDisk.onDisks {α : Type} {f : World → α × World} (hf : IgnoresDisk f)
    (d d' : Disk) : Respects (OnDisks d d') f := by
  rintro w _ ⟨hw, rfl⟩
  rw [hf w d']
  exact ⟨rfl, (hf.disk w).trans hw, rfl⟩

/-- Runs that may not use files, on two disks. -/
def Accord.onDisks (c : Config) (d d' : Disk) : Accord Unit :=
  .silent c true (fun _ _ => False) fun _ => World.OnDisks d d'

namespace Accord

variable {c : Config} {d d' : Disk}

theorem lawful_onDisks (hsilent : c.traceLevel = 0) (haccess : c.fileAccess = false)
    (hload : c.LoadsOffDisk) : (onDisks c d d').Lawful := by
  refine lawful_silent hsilent ?_ ?_ (fun _ path => (hload path).onDisks d d')
    (fun h => by simp [haccess] at h) fun _ _ h => h.elim
  · exact fun _ text => World.IgnoresDisk.onDisks (fun _ _ => rfl) d d'
  · rintro _ w _ ⟨-, rfl⟩
    rfl

theorem States.eq_withDisk {w : Unit} {s s' : State} (hs : (onDisks c d d').States w s s') :
    s' = s.withDisk d' ∧ s.world.disk = d := by
  have hheap := hs.heap.eq rfl rfl fun _ _ => id
  obtain ⟨hconfig, hconfig', -, ⟨hdisk, hworld⟩, htraced, htraced', htorn⟩ := hs
  obtain ⟨config, heap, world, traced, torn⟩ := s
  obtain ⟨config', heap', world', traced', torn'⟩ := s'
  obtain rfl : config = c := hconfig
  obtain rfl : config' = config := hconfig'
  obtain rfl : heap' = heap := hheap
  obtain rfl : world' = world.withDisk d' := hworld
  obtain rfl : traced' = traced := htraced'.trans htraced.symm
  obtain rfl : torn' = torn := htorn
  exact ⟨rfl, hdisk⟩

end Accord

/-- Without access to files, a program does the same on every disk and leaves the disk as it was. -/
theorem run_withDisk {s : State} (haccess : s.config.fileAccess = false)
    (hsilent : s.config.traceLevel = 0) (htraced : s.traced = none)
    (hload : s.config.LoadsOffDisk) (d : Disk) (limit : Nat) (p : List Stmt) :
    (s.withDisk d).run limit p = (s.run limit p).map (·.withDisk d) ∧
    ∀ e, s.run limit p = some e → e.state.world.disk = s.world.disk := by
  let A := Accord.onDisks s.config s.world.disk d
  have : A.Lawful := Accord.lawful_onDisks hsilent haccess hload
  have hstates : A.States () s (s.withDisk d) :=
    ⟨rfl, rfl, .refl rfl _, ⟨rfl, rfl⟩, htraced, htraced, rfl⟩
  have hchance : A.AdmitsChance := fun hf => Accord.admits_silent fun _ => hf.onDisks _ d
  have hends := hstates.run (fun _ _ => id) hchance rfl (.ofInlined (.reflStmts p))
    (fun h => absurd h (Nat.lt_irrefl _)) limit
  generalize s.run limit p = e at hends ⊢
  generalize (s.withDisk d).run limit p = e' at hends ⊢
  cases hends with
  | none => exact ⟨rfl, fun _ h => nomatch h⟩
  | @some e e' h =>
    obtain ⟨result, state⟩ := e
    obtain ⟨result', state'⟩ := e'
    obtain ⟨hr, _, hs⟩ := h
    obtain ⟨hstate, hdisk⟩ := hs.eq_withDisk
    obtain rfl : result' = result := hr.eq rfl
    obtain rfl : state' = state.withDisk d := hstate
    refine ⟨rfl, ?_⟩
    rintro _ ⟨⟩
    exact hdisk

/-- A fresh run without access to files, on a disk with a file. -/
def confined : State :=
  ⟨⟨.absent, true, 0, false, []⟩, .initial,
    ⟨#[], Disk.put ⟨[], []⟩ ["a"] (.file [120]), ⟨[], []⟩, [], 0, 0⟩, none, false⟩

/-- `šalát.mapuj(__arr("a"), šufle.čti)`: a callback that reads a file. -/
def readInCallback : List Stmt :=
  [.mk 1 (.expr (.call (.member (.variable "šalát") "mapuj")
    [.call (.variable "__arr") [.constant (.str "a")], .member (.variable "šufle") "čti"]))]

/-- The callback reads nothing: it ends alike on the disk without the file. -/
theorem run_withDisk_callback :
    confined.config.LoadsOffDisk ∧
    (confined.withDisk ⟨[], []⟩).run 100 readInCallback =
      (confined.run 100 readInCallback).map (·.withDisk ⟨[], []⟩) ∧
    ∀ e, confined.run 100 readInCallback = some e →
      e.state.world.disk = confined.world.disk := by
  have hload : confined.config.LoadsOffDisk := Config.loadsOffDisk_of_loader rfl
  exact ⟨hload, run_withDisk rfl rfl rfl hload ⟨[], []⟩ 100 readInCallback⟩

end Hantec
