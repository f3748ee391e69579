/-
# From the image to the dance

The two halves of the program together: `program` is a step of the two threads in which
`ManageStates` returns from `get_flag` with what `get_flag` makes of the image that was
captured.  It has no step where `extract_color_bands` would write past its array, and
otherwise never stops (`program_eq_none_iff`).  The threads with arbitrary flags for the
images have the same runs (`program_reaches_iff`).

Over a whole run, the dances that are started are the flags that the captured images
show, in their order: none is lost, none is danced twice, and none is danced that was
not seen (`recognized_pending`).  The song is always that of a flag seen
(`song_of_last_seen`), a robot that has seen no flag has not moved or made a sound
(`still_of_unseen`), and a flag that is seen is danced before `ManageStates` blocks
again (`dances_of_shown`).
-/

import JeanBot.Dancing.Bounds
import JeanBot.FlagDetection.Capacity
import JeanBot.FlagDetection.Pixels

namespace JeanBot
namespace Dancing

open Lib FlagDetection

/-! ### The program -/

/-- What a step of the program reads from outside: the image that was captured last, and
the rest. -/
structure Percept where
  input : Input
  image : ImageBuffer

/-- `ManageStates` returns from `get_flag` in the step. -/
def captures (s : Robot) (a : Priority × Percept) : Bool := a.1 = .high && s.msPc = .waitImage

/-- One step of the program. -/
def program (freq : Note → ℕ) (s : Robot) (a : Priority × Percept) : Option Robot :=
  if captures s a then do
    let country ← getFlag a.2.image
    (threads freq).step s (a.1, { a.2.input with flag := country })
  else (threads freq).step s (a.1, a.2.input)

variable {freq : Note → ℕ} {s u t : Robot} {i : Input} {a : Priority × Percept}
  {tr : List (Robot × (Priority × Percept))}

/-- The flag that the captured image shows, and the first one in the order of `extract_flag` if it
shows several. -/
noncomputable def imageFlag (a : Priority × Percept) : Flag :=
  firstShown (cleanLine (decodedLine a.2.image))

/-- **A step of the program is a step of the two threads**, and where `ManageStates` returns
from `get_flag`, the flag that it returns with is the one that the captured image shows. -/
theorem program_cases (h : program freq s a = some u) : ∃ i,
    (threads freq).step s (a.1, i) = some u ∧
      (captures s a = true → imageFlag a = i.flag) := by
  unfold program at h
  split_ifs at h with hc
  · obtain ⟨f, hf, h⟩ := Option.bind_eq_some_iff.1 h
    exact ⟨{ a.2.input with flag := f }, h, fun _ => (eq_of_getFlag hf).2⟩
  · exact ⟨a.2.input, h, fun hc' => absurd hc' hc⟩

/-- A run of the program is a run of the two threads: the image is replaced by the flag that it
shows, and everything else that a step reads stays.  So what holds of every run of the threads
holds of every run of the program. -/
theorem threads_run (h : Run (program freq) s tr t) :
    ∃ tr', Run (threads freq).step s tr' t := by
  refine h.refines (f := id) fun s a u hs => Or.inr ?_
  obtain ⟨i, hi, -⟩ := program_cases hs
  exact ⟨_, hi⟩

/-- **The history rule for the program**: a property of the trace and the state holds at the end
of every run from power-up if it holds there and is kept by the branches of `ManageStates`,
which get the flag that the image shows, and by those of `Dance`, which run only while
`ManageStates` is blocked. -/
theorem program_history {P : List (Robot × (Priority × Percept)) → Robot → Prop}
    {C : Robot → Priority × Percept → Prop} (h : Run (program freq) powerUp tr t)
    (hC : ∀ x ∈ tr, C x.1 x.2) (h₀ : P [] powerUp)
    (hms : ∀ tr s a i u, P tr s → MsInv freq s → C s a → a.1 = .high →
      (captures s a = true → imageFlag a = i.flag) → MsStep freq s i u → P (tr ++ [(s, a)]) u)
    (hdance : ∀ tr s a i u, P tr s → C s a → a.1 = .low → s.msPc.blocked = true →
      DanceStep s i u → P (tr ++ [(s, a)]) u) :
    P tr t := by
  refine (h.history (P := fun tr t => P tr t ∧ MsInv freq t) hC ⟨h₀, inv_powerUp.ms⟩ ?_).1
  rintro tr s a u ⟨hP, hm⟩ hCa hs
  obtain ⟨i, hi, hflag⟩ := program_cases hs
  obtain ⟨j, hj, hu⟩ | ⟨j, hj, hb, hu⟩ := step_cases hi
  · obtain ⟨ha, rfl⟩ := Prod.mk.inj hj
    exact ⟨hms tr s a i u hP hm hCa ha hflag hu, hu.msInv hm⟩
  · obtain ⟨ha, rfl⟩ := Prod.mk.inj hj
    exact ⟨hdance tr s a i u hP hCa ha hb hu, hu.msInv hb hm⟩

/-! ### What can go wrong -/

/-- `ManageStates` can always make a step: it reads no array, and every other read of it has a
value. -/
theorem exists_manageStates (freq : Note → ℕ) (s : Robot) (i : Input) :
    ∃ u, manageStates freq s i = some u := by
  cases hpc : s.msPc <;> simp only [manageStates, hpc]
  case obstacle | testSelector | testDetection | testWindow | testDance =>
    split_ifs <;> exact ⟨_, rfl⟩
  all_goals exact ⟨_, rfl⟩

/-- **Only an image can stop the program.**  In every reachable state, whichever thread is
scheduled makes its step, unless `get_flag` gets an image with more bands than its array
has room for. -/
theorem program_eq_none_iff (h : Run (program freq) powerUp tr t) (a : Priority × Percept)
    (ha : a.1 = .high ∨ t.msPc.blocked = true) :
    program freq t a = none ↔ captures t a = true ∧
      maxNumColorBands < (bandList (decodedLine a.2.image)).length := by
  have hreach : Reachable freq t := threads_run h
  have hpos := hreach.msInv.2
  have hstep : ∀ i, ∃ u, (threads freq).step t (a.1, i) = some u := by
    intro i
    cases hp : a.1 with
    | high => exact exists_manageStates freq t i
    | low =>
      obtain ⟨u, hu⟩ := hpos.exists_dance i
      have hb := ha.resolve_left (by simp [hp])
      exact ⟨u, (if_pos hb).trans hu⟩
  unfold program
  split_ifs with hc
  · rw [Option.bind_eq_bind, Option.bind_eq_none_iff, ← Nat.not_le, ← getFlag_isSome_iff]
    constructor
    · intro hnone
      refine ⟨hc, fun hsome => ?_⟩
      obtain ⟨f, hf⟩ := Option.isSome_iff_exists.1 hsome
      obtain ⟨u, hu⟩ := hstep { a.2.input with flag := f }
      rw [hnone f hf] at hu
      cases hu
    · rintro ⟨-, hnone⟩ f hf
      rw [hf] at hnone
      exact absurd rfl hnone
  · obtain ⟨u, hu⟩ := hstep a.2.input
    rw [hu]
    exact iff_of_false nofun fun hc' => hc hc'.1

/-! ### The camera as an input -/

/-- The camera sees an image of the flag that the input names. -/
def photograph (a : Priority × Input) : Priority × Percept := (a.1, ⟨a.2, flagImage a.2.flag⟩)

/-- What the threads do with a flag, the program does with an image of it: `get_flag` returns
the flag of the image, and a step reads nothing else of it. -/
theorem program_photograph (freq : Note → ℕ) (s : Robot) (a : Priority × Input) :
    program freq s (photograph a) = (threads freq).step s a := by
  unfold program photograph
  rw [getFlag_flagImage]
  split_ifs <;> rfl

/-- The image that is made for an input shows the flag of the input, and none that is looked for
earlier. -/
theorem imageFlag_photograph (a : Priority × Input) : imageFlag (photograph a) = a.2.flag :=
  (eq_of_getFlag (getFlag_flagImage a.2.flag)).2

/-- A run of the threads is a run of the program in front of images of the same flags. -/
theorem program_run {tr : List (Robot × (Priority × Input))}
    (h : Run (threads freq).step s tr t) :
    Run (program freq) s (tr.map fun x => (x.1, photograph x.2)) t :=
  h.map (f := id) fun s a _ hs => (program_photograph freq s a).trans hs

/-- **The camera may see anything**: between any two states, the program has a run exactly
when the two threads have one with some flags in place of the images.  What the threads
may do they do in front of some images, and no image makes them do anything else. -/
theorem program_reaches_iff (freq : Note → ℕ) (s t : Robot) :
    (∃ tr, Run (program freq) s tr t) ↔ ∃ tr, Run (threads freq).step s tr t := by
  constructor
  · rintro ⟨tr, h⟩
    exact threads_run h
  · rintro ⟨tr, h⟩
    exact ⟨_, program_run h⟩

/-- The program stops at an image of thirteen bands: `ManageStates` comes to its first
`get_flag`, and the band line of that image does not fit the array of ten. -/
theorem program_eq_none_crowdedImage : ∃ t : Robot,
    (∃ tr, Run (program concertPitch) powerUp tr t) ∧
      program concertPitch t (.high, ⟨clear 1 .undefinedFlag, crowdedImage⟩) = none := by
  obtain ⟨t, h, hpc⟩ := exists_run (threads concertPitch).step powerUp
    (msFor 3 (clear 0 .undefinedFlag) ++ msFor 12 (clear 1 .undefinedFlag))
    (P := fun t => t.msPc = .waitImage) (by decide +kernel)
  have hbands : maxNumColorBands < (bandList (decodedLine crowdedImage)).length := by
    rw [decodedLine_eq, colorLine_crowdedImage, bandList_crowdedGroups]
    decide
  exact ⟨t, ⟨_, program_run h⟩, (program_eq_none_iff (program_run h) _ (Or.inl rfl)).2
    ⟨by simp [captures, hpc], hbands⟩⟩

/-! ### Dances and flags seen -/

/-- A flag is recognised in the image captured in the step. -/
noncomputable def recognized (s : Robot) (a : Priority × Percept) : Option Flag :=
  if captures s a = true ∧ imageFlag a ≠ .undefinedFlag then some (imageFlag a) else none

/-- A dance is started in the step, for the flag. -/
def started (s : Robot) (a : Priority × Percept) : Option Flag :=
  match a.1, s.msPc with
  | .high, .restartFlag => some s.country
  | _, _ => none

/-- The flag that was recognised and is not danced yet. -/
def pendingFlag (s : Robot) : Option Flag :=
  match s.msPc with
  | .testWindow | .setFound | .takeSelectorAgain | .testDance | .restartPosition
  | .restartSong | .restartFlag => if s.country = .undefinedFlag then none else some s.country
  | _ => none

/-- A step of `ManageStates` recognises a flag, starts the dance for it, or leaves it pending.
The flag is pending from the return of `get_flag` to the last assignment of `restart_dance`, as
long as `country` holds it. -/
theorem MsStep.pendingFlag (h : MsStep freq s i u) (hm : MsInv freq s) (ha : a.1 = .high)
    (hflag : captures s a = true → imageFlag a = i.flag) :
    (pendingFlag s).toList ++ (recognized s a).toList =
      (started s a).toList ++ (Dancing.pendingFlag u).toList := by
  cases h with
  | stop p hpc =>
    cases p <;> simp_all [Dancing.pendingFlag, recognized, started, captures, StopPc.next]
  | openWindow hpc ho =>
    simp [Dancing.pendingFlag, recognized, started, captures, hpc, ha, country_of_windowOpen ho]
  | _ hpc => simp_all [Dancing.pendingFlag, recognized, started, captures, MsInv]

/-- A step of `Dance` neither recognises a flag nor starts a dance, and leaves the pending flag
pending. -/
theorem DanceStep.pendingFlag (h : DanceStep s i u) (ha : a.1 = .low) :
    (Dancing.pendingFlag s).toList ++ (recognized s a).toList =
      (started s a).toList ++ (Dancing.pendingFlag u).toList := by
  have hf := h.frame
  have hp : Dancing.pendingFlag u = Dancing.pendingFlag s := by
    rw [Dancing.pendingFlag, hf.msPc, hf.country]
    rfl
  simp [hp, recognized, started, captures, ha]

/-- **The dances started are the flags seen.**  In every run of the program from power-up,
the flags recognised in the captured images are, in their order, the flags of the dances
that were started, and at most one more, whose dance `ManageStates` is about to start. -/
theorem recognized_pending (h : Run (program freq) powerUp tr t) :
    events recognized tr = events started tr ++ (pendingFlag t).toList ∧
      (t.msPc.blocked = true → events recognized tr = events started tr) := by
  have hall : events recognized tr = events started tr ++ (pendingFlag t).toList := by
    refine program_history (P := fun tr t => events recognized tr =
      events started tr ++ (pendingFlag t).toList) (C := fun _ _ => True) h (fun _ _ => trivial)
      rfl ?_ ?_
    · intro tr s a i u he hm _ ha hflag hu
      have hnext := hu.pendingFlag hm ha hflag
      rw [events_snoc, events_snoc, he, List.append_assoc, hnext, List.append_assoc]
    · intro tr s a i u he _ ha _ hu
      have hnext := hu.pendingFlag ha
      rw [events_snoc, events_snoc, he, List.append_assoc, hnext, List.append_assoc]
  refine ⟨hall, fun hb => ?_⟩
  have hnone : pendingFlag t = none := by
    obtain hpc | hpc | hpc := MsPc.blocked_cases hb <;> rw [pendingFlag, hpc]
  rw [hall, hnone, Option.toList_none, List.append_nil]

/-- The French flag is shown, and when `ManageStates` sleeps again its dance is started and
nothing is pending. -/
theorem recognized_pending_startDance : ∃ tr t, Run (program concertPitch) powerUp tr t ∧
    t.msPc.blocked = true ∧ events started tr = [.france] ∧
      events recognized tr = events started tr := by
  obtain ⟨t, h, hb, hev⟩ := exists_run (threads concertPitch).step powerUp (startDance .france)
    (P := fun t => t.msPc.blocked = true ∧ events (fun s a => started s (photograph a))
      (trace (threads concertPitch).step powerUp (startDance .france)) = [.france])
    (by decide +kernel)
  exact ⟨_, t, program_run h, hb, (events_map started id photograph _).trans hev,
    (recognized_pending (program_run h)).2 hb⟩

/-! ### The song -/

/-- The song is that of the last dance started, if there was one, and otherwise `Dance`
does nothing. -/
def LastSong (freq : Note → ℕ) (fs : List Flag) (s : Robot) : Prop :=
  s.msPc ≠ .restartFlag →
    match fs.getLast? with
    | some f => s.currentSong = lutFlagToMusic freq f
    | none => s.isDancing = false ∧ s.dancePc.outside = true

/-- A step that changes neither the song nor starts a dance keeps the song that of the last
dance, and a `Dance` that had nothing to do still has nothing to do. -/
theorem LastSong.congr {fs : List Flag} (hs : LastSong freq fs s) (hne : s.msPc ≠ .restartFlag)
    (hsong : u.currentSong = s.currentSong)
    (hout : s.isDancing = false ∧ s.dancePc.outside = true →
      u.isDancing = false ∧ u.dancePc.outside = true) : LastSong freq fs u := by
  intro _
  have hs' := hs hne
  cases hl : fs.getLast? with
  | none =>
    rw [hl] at hs'
    exact hout hs'
  | some f =>
    rw [hl] at hs'
    exact hsong.trans hs'

/-- `ManageStates` changes the song at one statement, two before the dance is started: there it
installs the song of `country`, which is also the flag of the dance. -/
theorem MsStep.lastSong {fs : List Flag} (h : MsStep freq s i u) (hm : MsInv freq s)
    (ha : a.1 = .high) (hs : LastSong freq fs s) :
    LastSong freq (fs ++ (started s a).toList) u := by
  cases h with
  | restartFlag hpc =>
    simp only [MsInv, hpc] at hm
    have hev : started s a = some s.country := by rw [started, ha, hpc]
    rw [hev, Option.toList_some, LastSong, List.getLast?_concat]
    exact fun _ => hm.2.2.2.2
  | restartSong hpc => exact fun hne => absurd rfl hne
  | stop p hpc =>
    have hev : started s a = none := by rw [started, ha, hpc]
    rw [hev, Option.toList_none, List.append_nil]
    refine hs.congr (by simp [hpc]) ?_ fun ho => ?_
    · cases p <;> rfl
    · cases p <;> simp_all [StopPc.exec]
  | _ hpc =>
    have hev : started s a = none := by rw [started, ha, hpc]
    rw [hev, Option.toList_none, List.append_nil]
    exact hs.congr (by simp [hpc]) rfl id

/-- `Dance` does not change the song, and while no dance was started `is_dancing` is false, so
that it does not enter the guarded branch. -/
theorem DanceStep.lastSong {fs : List Flag} (h : DanceStep s i u) (hb : s.msPc.blocked = true)
    (hs : LastSong freq fs s) : LastSong freq fs u := by
  have hne : s.msPc ≠ .restartFlag := fun hpc => by rw [hpc] at hb; cases hb
  refine hs.congr hne h.frame.currentSong fun ⟨hd, ho⟩ => ?_
  cases h with
  | stop p hpc => simp_all [DancePc.outside]
  | _ => simp_all [DancePc.outside]

/-- A flag that was recognised is one of those that are looked for, and an image captured in the
run shows it. -/
theorem exists_shows_of_recognized {f : Flag} (h : f ∈ events recognized tr) :
    f ∈ flagOrder ∧ ∃ x ∈ tr, captures x.1 x.2 = true ∧
      Shows (cleanLine (decodedLine x.2.2.image)) f := by
  obtain ⟨x, hx, hf⟩ := List.mem_filterMap.1 h
  unfold recognized at hf
  split_ifs at hf with hc
  obtain rfl := Option.some.inj hf
  obtain ⟨hmem, hshow⟩ := shows_of_firstShown rfl hc.2
  exact ⟨hmem, x, hx, hc.1, hshow⟩

/-- **The robot dances to the song of the last flag it has seen.**  Whenever `Dance` can run
and dances, the last flag recognised is one that a captured image showed, and its song is
the one that is played. -/
theorem song_of_last_seen (h : Run (program freq) powerUp tr t) (hb : t.msPc.blocked = true)
    (hd : t.isDancing = true ∨ t.dancePc.outside = false) :
    ∃ f ∈ flagOrder, (events recognized tr).getLast? = some f ∧
      t.currentSong = lutFlagToMusic freq f ∧
      ∃ x ∈ tr, captures x.1 x.2 = true ∧ Shows (cleanLine (decodedLine x.2.2.image)) f := by
  have hlast : LastSong freq (events started tr) t := by
    refine program_history (P := fun tr t => LastSong freq (events started tr) t)
      (C := fun _ _ => True) h (fun _ _ => trivial) (fun _ => ⟨rfl, rfl⟩) ?_ ?_
    · intro tr s a i u hl hm _ ha _ hu
      rw [events_snoc]
      exact hu.lastSong hm ha hl
    · intro tr s a i u hl _ ha hb hu
      have hev : started s a = none := by rw [started, ha]
      rw [events_snoc, hev, Option.toList_none, List.append_nil]
      exact hu.lastSong hb hl
  have heq := (recognized_pending h).2 hb
  have hne : t.msPc ≠ .restartFlag := fun hpc => by rw [hpc] at hb; cases hb
  have hsong := hlast hne
  rw [← heq] at hsong
  cases hl : (events recognized tr).getLast? with
  | none =>
    rw [hl] at hsong
    simp_all
  | some f =>
    rw [hl] at hsong
    obtain ⟨hmem, hshow⟩ := exists_shows_of_recognized (List.mem_of_getLast? hl)
    exact ⟨f, hmem, rfl, hsong, hshow⟩

/-- When the Japanese flag was seen, `Dance` has its song to play, and the image that showed the
flag is in the run. -/
theorem song_of_last_seen_startDance : ∃ tr t, Run (program concertPitch) powerUp tr t ∧
    t.msPc.blocked = true ∧ t.isDancing = true ∧
      ∃ f ∈ flagOrder, (events recognized tr).getLast? = some f ∧
      t.currentSong = lutFlagToMusic concertPitch f ∧
      ∃ x ∈ tr, captures x.1 x.2 = true ∧ Shows (cleanLine (decodedLine x.2.2.image)) f := by
  obtain ⟨t, h, hb, hd⟩ := exists_run (threads concertPitch).step powerUp (startDance .japan)
    (P := fun t => t.msPc.blocked = true ∧ t.isDancing = true) (by decide +kernel)
  exact ⟨_, t, program_run h, hb, hd, song_of_last_seen (program_run h) hb (Or.inl hd)⟩

/-! ### No flag -/

/-- Nothing was ever started. -/
structure Unmoved (s : Robot) : Prop where
  country : s.country = .undefinedFlag
  isDancing : s.isDancing = false
  outside : s.dancePc.outside = true
  left : s.leftSpeed = 0
  right : s.rightSpeed = 0
  dac : s.dac = none

/-- `ManageStates` starts nothing as long as no image shows a flag: `country` stays undefined,
the branch with the restart is not taken, and `stop_dancing` only writes what the motors and the
DAC already are. -/
theorem MsStep.unmoved (h : MsStep freq s i u) (hm : MsInv freq s) (hs : Unmoved s)
    (hflag : s.msPc = .waitImage → i.flag = .undefinedFlag) : Unmoved u := by
  obtain ⟨hc, hd, ho, hl, hr, hdac⟩ := hs
  cases h with
  | stop p hpc => cases p <;> constructor <;> simp_all [StopPc.exec]
  | waitImage hpc => exact ⟨hflag hpc, hd, ho, hl, hr, hdac⟩
  | restartFlag hpc => simp_all [MsInv]
  | _ => constructor <;> simp_all

/-- `Dance` stays outside of the guarded branch while `is_dancing` is false, so it comes to no
motor, to no note and to no `stop_dancing` of its own. -/
theorem DanceStep.unmoved (h : DanceStep s i u) (hs : Unmoved s) : Unmoved u := by
  obtain ⟨hc, hd, ho, hl, hr, hdac⟩ := hs
  cases h with
  | stop p hpc => simp_all [DancePc.outside]
  | _ => constructor <;> simp_all [DancePc.outside]

/-- **A robot that has seen no flag has not moved.**  In a run of the program in which no
captured image shows a flag, the motors and the DAC stay off and no dance is started, whatever
the obstacles, the selector and the schedule. -/
theorem still_of_unseen (h : Run (program freq) powerUp tr t)
    (hno : ∀ x ∈ tr, captures x.1 x.2 = true → ∀ f ∈ flagOrder,
      ¬Shows (cleanLine (decodedLine x.2.2.image)) f) :
    t.isDancing = false ∧ t.leftSpeed = 0 ∧ t.rightSpeed = 0 ∧ t.dac = none := by
  have hun : Unmoved t := by
    refine program_history (P := fun _ t => Unmoved t) (C := fun s a => captures s a = true →
      ∀ f ∈ flagOrder, ¬Shows (cleanLine (decodedLine a.2.image)) f) h hno
      ⟨rfl, rfl, rfl, rfl, rfl, rfl⟩ ?_ ?_
    · intro tr s a i u hs hm hCa ha hflag hu
      refine hu.unmoved hm hs fun hpc => ?_
      have hc : captures s a = true := by simp [captures, ha, hpc]
      rw [← hflag hc]
      exact (firstShown_eq_undefined_iff _).2 (hCa hc)
    · intro tr s a i u hs _ _ _ hu
      exact hu.unmoved hs
  exact ⟨hun.isDancing, hun.left, hun.right, hun.dac⟩

/-- Two images without a flag, and `Dance` in front of its guard. -/
def blankWall : List (Priority × Input) :=
  msFor 3 (clear 0 .undefinedFlag) ++ msFor 16 (clear 1 .undefinedFlag) ++
    danceFor 4 (clear 1 .undefinedFlag)

/-- Two images without a flag are captured in this run, `Dance` waits in front of its guard, and
nothing has moved. -/
theorem still_of_unseen_blankWall : ∃ (t : Robot) (tr : List (Robot × (Priority × Percept))),
    Run (program concertPitch) powerUp tr t ∧ (∃ x ∈ tr, captures x.1 x.2 = true) ∧
      t.isDancing = false ∧ t.leftSpeed = 0 ∧ t.rightSpeed = 0 ∧ t.dac = none := by
  obtain ⟨t, h, hcap, hflag⟩ := exists_run (threads concertPitch).step powerUp blankWall
    (P := fun t => (∃ x ∈ trace (threads concertPitch).step powerUp blankWall,
        x.2.1 = .high ∧ x.1.msPc = .waitImage) ∧
      ∀ x ∈ trace (threads concertPitch).step powerUp blankWall, x.2.2.flag = .undefinedFlag)
    (by decide +kernel)
  obtain ⟨x, hx, hp, hpc⟩ := hcap
  have hx' : captures x.1 (photograph x.2) = true := by simp [captures, photograph, hp, hpc]
  refine ⟨t, _, program_run h, ?_, still_of_unseen (program_run h) ?_⟩
  · exact ⟨_, List.mem_map.2 ⟨x, hx, rfl⟩, hx'⟩
  · intro y hy _
    obtain ⟨z, hz, rfl⟩ := List.mem_map.1 hy
    exact (firstShown_eq_undefined_iff _).1 ((imageFlag_photograph z.2).trans (hflag z hz))

/-! ### A flag that is seen is danced -/

/-- `ManageStates` has found `f` and is on its way to the end of the restart. -/
def Starting (freq : Note → ℕ) (f : Flag) (s : Robot) : Prop :=
  match s.msPc with
  | .testWindow | .setFound => s.country = f
  | .takeSelectorAgain | .testDance | .restartPosition => s.country = f ∧ s.robotState = .dance
  | .restartSong => s.country = f ∧ s.robotState = .dance ∧ s.musicPosition = 0
  | .restartFlag =>
    s.country = f ∧ s.robotState = .dance ∧ s.musicPosition = 0 ∧
      s.currentSong = lutFlagToMusic freq f
  | .clearCountry | .sleep =>
    s.robotState = .dance ∧ s.musicPosition = 0 ∧ s.currentSong = lutFlagToMusic freq f ∧
      s.isDancing = true
  | _ => False

/-- Whatever `ManageStates` reads, each of its statements takes the flag that was found one
statement closer to its dance: a flag ends the window, and the restart is not skipped. -/
theorem MsStep.starting (h : MsStep freq s i u) {f : Flag} (hf : f ≠ .undefinedFlag)
    (hs : Starting freq f s) (hb : s.msPc.blocked = false) : Starting freq f u := by
  cases h with
  | stop p hpc => simp_all [Starting]
  | openWindow hpc ho =>
    have hc := country_of_windowOpen ho
    simp_all [Starting]
  | _ hpc => simp_all [Starting, MsPc.blocked]

/-- **A flag that is seen is danced**: when the image captured shows `f`, and unless its bands
overflow, the dance of `f` has been started when `ManageStates` blocks next, whatever the
sensors, the selector and the clock say in between. -/
theorem dances_of_shown {f : Flag} (hf : f ≠ .undefinedFlag) (hcap : captures s a = true)
    (himg : imageFlag a = f) (hs : program freq s a = some u)
    (h : Run (program freq) u tr t) (hb : ∀ x ∈ tr, x.1.msPc.blocked = false)
    (ht : t.msPc.blocked = true) :
    t.msPc = .sleep ∧ t.isDancing = true ∧ t.musicPosition = 0 ∧
      t.currentSong = lutFlagToMusic freq f := by
  obtain ⟨hp, hpc⟩ : a.1 = .high ∧ s.msPc = .waitImage := by simpa [captures] using hcap
  have hu : u.msPc = .testWindow ∧ u.country = f := by
    obtain ⟨i, hi, hflag⟩ := program_cases hs
    obtain ⟨j, ha, hu⟩ | ⟨j, ha, -, hu⟩ := step_cases hi
    · obtain ⟨-, rfl⟩ := Prod.mk.inj ha
      cases hu <;> simp_all
    · rw [hp] at ha
      cases (Prod.mk.inj ha).1
  have hstart : Starting freq f t := by
    refine h.invariant (P := Starting freq f) (C := fun s _ => s.msPc.blocked = false) hb ?_ ?_
    · rw [Starting, hu.1]
      exact hu.2
    · intro s a v hP hC hstep
      obtain ⟨i, hi, -⟩ := program_cases hstep
      obtain ⟨j, -, hv⟩ | ⟨j, -, hblocked, -⟩ := step_cases hi
      · exact hv.starting hf hP hC
      · rw [hblocked] at hC
        cases hC
  obtain hpc | hpc | hpc := MsPc.blocked_cases ht
  · simp [Starting, hpc] at hstart
  · simp [Starting, hpc] at hstart
  · simp only [Starting, hpc] at hstart
    exact ⟨hpc, hstart.2.2.2, hstart.2.1, hstart.2.2.1⟩

/-- The Swiss flag is shown in the first image of a window, and when `ManageStates` sleeps the
Swiss song is installed at its beginning. -/
theorem dances_of_shown_switzerland : ∃ s a u tr t,
    (∃ tr', Run (program concertPitch) powerUp tr' s) ∧ captures s a = true ∧
      imageFlag a = .switzerland ∧ program concertPitch s a = some u ∧
      Run (program concertPitch) u tr t ∧ (∀ x ∈ tr, x.1.msPc.blocked = false) ∧
      t.msPc = .sleep ∧ t.isDancing = true ∧ t.musicPosition = 0 ∧
      t.currentSong = lutFlagToMusic concertPitch .switzerland := by
  obtain ⟨s, h, hpc, u, hu, t, ht, hb, htb⟩ := exists_run (threads concertPitch).step powerUp
    (msFor 3 (clear 0 .switzerland) ++ msFor 12 (clear 1 .switzerland)) (P := fun s =>
      s.msPc = .waitImage ∧ ∃ u ∈ (threads concertPitch).step s (.high, clear 1 .switzerland),
        ∃ t ∈ (msFor 8 (clear 1 .undefinedFlag)).foldlM (threads concertPitch).step u,
          (∀ x ∈ trace (threads concertPitch).step u (msFor 8 (clear 1 .undefinedFlag)),
            x.1.msPc.blocked = false) ∧ t.msPc.blocked = true)
    (by decide +kernel)
  have hcap : captures s (photograph (.high, clear 1 .switzerland)) = true := by
    simp [captures, photograph, hpc]
  have himg := imageFlag_photograph (.high, clear 1 .switzerland)
  have hstep := (program_photograph concertPitch s (.high, clear 1 .switzerland)).trans hu
  have hrun := program_run (run_of_foldlM ht)
  have hnone : ∀ x ∈ (trace (threads concertPitch).step u (msFor 8 (clear 1 .undefinedFlag))).map
      (fun x => (x.1, photograph x.2)), x.1.msPc.blocked = false := by
    intro x hx
    obtain ⟨y, hy, rfl⟩ := List.mem_map.1 hx
    exact hb y hy
  exact ⟨s, _, u, _, t, ⟨_, program_run h⟩, hcap, himg, hstep, hrun, hnone,
    dances_of_shown (by decide) hcap himg hstep hrun hnone htb⟩

end Dancing
end JeanBot
