import LMalz.Monitor.Violation
import Mathlib.Data.List.TakeWhile

/- LoadImageNotifyRoutine of main.cpp: which images are monitored. -/
namespace LMalz.Monitor
open Ept Transition

/-- A C string: what stands before the NUL. -/
def cString (text : List (BitVec 8)) : List (BitVec 8) := text.takeWhile (· ≠ 0)

/-- strcpy into an array, none when it writes past its end. -/
def strcpy (array text : List (BitVec 8)) : Option (List (BitVec 8)) :=
  if (cString text).length < array.length then
    some (cString text ++ 0 :: array.drop ((cString text).length + 1))
  else none

/-- _strlwr, for one character. -/
def strlwr (c : BitVec 8) : BitVec 8 := if 0x41 ≤ c ∧ c ≤ 0x5a then c + 0x20 else c

/-- strstr(text, part) != NULL. -/
def strstr (text part : List (BitVec 8)) : Bool :=
  part.isPrefixOf text ||
    match text with
    | [] => false
    | _ :: rest => strstr rest part

/-- char szFullImageName[260] = { 0 }. -/
def szFullImageName : List (BitVec 8) := List.replicate 260 0

/-- "ace-game-0". -/
def watchedName : List (BitVec 8) := [0x61, 0x63, 0x65, 0x2d, 0x67, 0x61, 0x6d, 0x65, 0x2d, 0x30]

/-- UNICODE_STRING, none for a null Buffer. -/
structure UnicodeString where
  buffer : Option (List (BitVec 16))

/-- A call of LoadImageNotifyRoutine. The name is none if the pointer is null or not valid. -/
structure Image where
  fullImageName : Option UnicodeString
  processId : BitVec 64
  imageBase : BitVec 64
  imageSize : BitVec 64
  getPa : BitVec 64 → BitVec 64

/-- ALvmxMNTsetTarget(ImageInfo->ImageBase, ImageInfo->ImageSize). -/
def Image.call (i : Image) : Call := ⟨i.imageBase, i.imageSize, i.getPa⟩

section Routine
variable (ansi : List (BitVec 16) → Option (List (BitVec 8)))

/-- `ansi` is RtlUnicodeStringToAnsiString. -/
def unicodeToChar (dst : UnicodeString) (src : List (BitVec 8)) : Option (List (BitVec 8)) :=
  match dst.buffer.bind ansi with
  | none => some src
  | some text => strcpy src text

/-- The call it makes, if any; none when it writes past szFullImageName. -/
def loadImageNotifyRoutine (i : Image) : Option (Option Call) :=
  match i.fullImageName with
  | none => some none
  | some name =>
      if i.processId = 0 then
        (unicodeToChar ansi name szFullImageName).map fun text =>
          if strstr ((cString text).map strlwr) watchedName then some i.call else none
      else some none

/-- The image of a driver, and the ANSI text of its name. -/
def Image.Named (i : Image) (text : List (BitVec 8)) : Prop :=
  i.processId = 0 ∧ ∃ name, i.fullImageName = some name ∧ name.buffer.bind ansi = some text

/-- Somewhere in its name stands "ace-game-0", in any case. -/
def Image.Watched (i : Image) : Prop :=
  ∃ text, i.Named ansi text ∧ ∃ part, part <:+: cString text ∧ part.map strlwr = watchedName

end Routine

def Image.pages (i : Image) : List Frame := i.call.addresses.map pageOf

section Names
variable {ansi : List (BitVec 16) → Option (List (BitVec 8))} {text part array : List (BitVec 8)}
  {i : Image} {call : Option Call}

theorem strstr_iff : strstr text part = true ↔ part <:+: text := by
  induction text with
  | nil => simp [strstr, List.isPrefixOf_iff_prefix, List.infix_nil, List.prefix_nil]
  | cons c rest ih =>
      rw [strstr, Bool.or_eq_true, List.isPrefixOf_iff_prefix, ih, List.infix_cons_iff]

theorem cString_strcpy (copied : strcpy array text = some part) : cString part = cString text := by
  rw [strcpy] at copied
  split at copied
  · cases copied
    have stops : ∀ c ∈ cString text, decide (c ≠ 0) = true := by
      intro c inside
      have kept := List.mem_takeWhile_imp inside
      exact kept
    rw [cString, List.takeWhile_append_of_pos stops, List.takeWhile_cons_of_neg (by simp),
      List.append_nil]
  · cases copied

theorem strcpy_none_iff : strcpy szFullImageName text = none ↔ 260 ≤ (cString text).length := by
  have size : szFullImageName.length = 260 := List.length_replicate
  rw [strcpy, size]
  split <;> simp <;> omega

theorem Image.Named.unique (named : i.Named ansi text) (also : i.Named ansi part) :
    text = part := by
  obtain ⟨-, name, here, converted⟩ := named
  obtain ⟨-, other, here', converted'⟩ := also
  rw [here] at here'
  cases here'
  exact Option.some.inj (converted.symm.trans converted')

theorem Image.Named.watched_iff (named : i.Named ansi text) :
    strstr ((cString text).map strlwr) watchedName = true ↔ i.Watched ansi := by
  rw [strstr_iff, List.infix_map_iff]
  constructor
  · rintro ⟨part, inside, same⟩
    exact ⟨text, named, part, inside, same.symm⟩
  · rintro ⟨other, also, part, inside, same⟩
    rw [named.unique also]
    exact ⟨part, inside, same.symm⟩

theorem watchedName_empty : strstr ((cString szFullImageName).map strlwr) watchedName = false := by
  decide

theorem loadImageNotifyRoutine_named (named : i.Named ansi text) : loadImageNotifyRoutine ansi i =
    (strcpy szFullImageName text).map fun text =>
      if strstr ((cString text).map strlwr) watchedName then some i.call else none := by
  obtain ⟨driver, name, here, converted⟩ := named
  rw [loadImageNotifyRoutine, here]
  simp only [if_pos driver, unicodeToChar, converted]

theorem loadImageNotifyRoutine_unnamed (unnamed : ∀ text, ¬ i.Named ansi text) :
    loadImageNotifyRoutine ansi i = some none := by
  rw [loadImageNotifyRoutine]
  cases here : i.fullImageName with
  | none => rfl
  | some name =>
      by_cases driver : i.processId = 0
      · cases converted : name.buffer.bind ansi with
        | none => simp [driver, unicodeToChar, converted, watchedName_empty]
        | some text => exact absurd ⟨driver, name, here, converted⟩ (unnamed text)
      · exact if_neg driver

/-- It writes past szFullImageName for the name of a driver from 260 characters on. -/
theorem loadImageNotifyRoutine_overflows_iff : loadImageNotifyRoutine ansi i = none ↔
    ∃ text, i.Named ansi text ∧ 260 ≤ (cString text).length := by
  by_cases named : ∃ text, i.Named ansi text
  · obtain ⟨text, named⟩ := named
    rw [loadImageNotifyRoutine_named named, Option.map_eq_none_iff, strcpy_none_iff]
    constructor
    · exact fun long => ⟨text, named, long⟩
    · rintro ⟨other, also, long⟩
      rwa [named.unique also]
  · have unnamed := not_exists.mp named
    rw [loadImageNotifyRoutine_unnamed unnamed]
    simp [unnamed]

/-- Otherwise it calls ALvmxMNTsetTarget for the watched images. -/
theorem loadImageNotifyRoutine_calls (returned : loadImageNotifyRoutine ansi i = some call) :
    (i.Watched ansi ∧ call = some i.call) ∨ (¬ i.Watched ansi ∧ call = none) := by
  by_cases named : ∃ text, i.Named ansi text
  · obtain ⟨text, named⟩ := named
    rw [loadImageNotifyRoutine_named named, Option.map_eq_some_iff] at returned
    obtain ⟨copy, copied, rfl⟩ := returned
    rw [cString_strcpy copied]
    split
    · next found => exact .inl ⟨named.watched_iff.mp found, rfl⟩
    · next missing => exact .inr ⟨mt named.watched_iff.mpr missing, rfl⟩
  · have unnamed := not_exists.mp named
    rw [loadImageNotifyRoutine_unnamed unnamed] at returned
    cases returned
    exact .inr ⟨fun ⟨text, here, _⟩ => unnamed text here, rfl⟩

end Names

inductive ImageEvent where
  | image (i : Image)
  | request (size : Int)
  | violation (j : Nat) (v : Violation)

/-- The routine is called for each image that is loaded, with the cores running. -/
inductive ImageStep (P : Platform) (fuel : Nat) (target vice : EptCls)
    (ansi : List (BitVec 16) → Option (List (BitVec 8))) : Cores → ImageEvent → Cores → Prop
  | watched {s t : Cores} {i : Image} {c : Call}
      (calls : loadImageNotifyRoutine ansi i = some (some c))
      (step : CoreStep P fuel target vice s (.edit (.setTarget c)) t) :
      ImageStep P fuel target vice ansi s (.image i) t
  | other {s : Cores} {i : Image} (none : loadImageNotifyRoutine ansi i = some none) :
      ImageStep P fuel target vice ansi s (.image i) s
  | request {s t : Cores} {size : Int}
      (step : CoreStep P fuel target vice s (.edit (.request size)) t) :
      ImageStep P fuel target vice ansi s (.request size) t
  | violation {s t : Cores} {j : Nat} {v : Violation}
      (step : CoreStep P fuel target vice s (.violation j v) t) :
      ImageStep P fuel target vice ansi s (.violation j v) t

/-- A watched image was loaded to the page. -/
def Loaded (ansi : List (BitVec 16) → Option (List (BitVec 8))) (es : List ImageEvent)
    (page : Frame) :
    Prop :=
  ∃ i, .image i ∈ es ∧ i.Watched ansi ∧ page ∈ i.pages

section Runs
variable {P : Platform} {fuel : Nat} {target vice : EptCls}
  {ansi : List (BitVec 16) → Option (List (BitVec 8))} {s₀ s t : Cores} {e : ImageEvent}
  {es : List ImageEvent} {pages : List Frame} {k : Nat}

theorem loaded_append {es fs : List ImageEvent} {page : Frame} :
    Loaded ansi (es ++ fs) page ↔ Loaded ansi es page ∨ Loaded ansi fs page := by
  constructor
  · rintro ⟨i, among, rest⟩
    exact (List.mem_append.mp among).imp (fun left => ⟨i, left, rest⟩) fun right => ⟨i, right, rest⟩
  · rintro (⟨i, left, rest⟩ | ⟨i, right, rest⟩)
    · exact ⟨i, List.mem_append_left _ left, rest⟩
    · exact ⟨i, List.mem_append_right _ right, rest⟩

theorem loaded_image {i : Image} {page : Frame} :
    Loaded ansi [.image i] page ↔ i.Watched ansi ∧ page ∈ i.pages := by
  constructor
  · rintro ⟨j, among, rest⟩
    cases List.mem_singleton.mp among
    exact rest
  · exact fun rest => ⟨i, List.mem_singleton_self _, rest⟩

theorem not_loaded {page : Frame} (other : ∀ i, e ≠ .image i) : ¬ Loaded ansi [e] page := by
  rintro ⟨i, among, -⟩
  exact other i (List.mem_singleton.mp among).symm

/-- A machine that may execute exactly the pages, and cores that alternate. -/
structure Watching (P : Platform) (target vice : EptCls) (pages : List Frame)
    (s : Cores) : Prop where
  monitored : ∃ k, Monitored P target vice s.machine pages k
  core : ∀ j, ∃ n, (s.core j).Sound target vice n

theorem Watching.step (watching : Watching P target vice pages s) (pointers : Pointers target vice)
    (enough : 6 ≤ fuel) (step : ImageStep P fuel target vice ansi s e t) :
    ∃ more, Watching P target vice (more ++ pages) t ∧ ∀ page, page ∈ more ↔
      Loaded ansi [e] page := by
  obtain ⟨k, h⟩ := watching.monitored
  cases step with
  | @watched _ i c calls step =>
      rcases loadImageNotifyRoutine_calls calls with ⟨watched, same⟩ | ⟨-, none⟩
      · cases same
        cases step with
        | edit step =>
            obtain ⟨k', after, -⟩ := h.step enough step
            refine ⟨i.pages, ⟨⟨k', after⟩, watching.core⟩, fun page => ?_⟩
            rw [loaded_image, and_iff_right watched]
      · cases none
  | @other i none =>
      rcases loadImageNotifyRoutine_calls none with ⟨-, same⟩ | ⟨unwatched, -⟩
      · cases same
      · refine ⟨[], watching, fun page => ?_⟩
        rw [loaded_image, iff_false_intro unwatched, false_and]
        exact iff_false_intro List.not_mem_nil
  | request step =>
      cases step with
      | edit step =>
          obtain ⟨k', after, -⟩ := h.step enough step
          exact ⟨[], ⟨⟨k', after⟩, watching.core⟩, fun page =>
            iff_of_false List.not_mem_nil (not_loaded fun _ => ImageEvent.noConfusion)⟩
  | violation step =>
      have sound : s.Sound P target vice := ⟨⟨pages, k, h⟩, watching.core⟩
      refine ⟨[], ⟨?_, (sound.step pointers enough step).core⟩, fun page =>
        iff_of_false List.not_mem_nil (not_loaded fun _ => ImageEvent.noConfusion)⟩
      cases step with
      | violation => exact ⟨k, h⟩

theorem Watching.run (run : Run (ImageStep P fuel target vice ansi) s es t)
    (pointers : Pointers target vice)
    (enough : 6 ≤ fuel) (watching : Watching P target vice pages s) :
    ∃ more, Watching P target vice (more ++ pages) t ∧ ∀ page, page ∈ more ↔
      Loaded ansi es page := by
  induction run generalizing pages with
  | nil s =>
      exact ⟨[], watching, fun page => iff_of_false List.not_mem_nil fun ⟨i, among, _⟩ =>
        by cases among⟩
  | @cons s u t e es first _ ih =>
      obtain ⟨more₁, watching₁, loaded₁⟩ := watching.step pointers enough first
      obtain ⟨more₂, watching₂, loaded₂⟩ := ih watching₁
      refine ⟨more₂ ++ more₁, by rwa [List.append_assoc], fun page => ?_⟩
      have split : Loaded ansi (e :: es) page ↔ Loaded ansi [e] page ∨ Loaded ansi es page :=
        (loaded_append : Loaded ansi ([e] ++ es) page ↔ _)
      rw [List.mem_append, loaded₁, loaded₂, split, or_comm]

theorem Cores.Started.watching (start : s₀.Started P fuel target vice) (enough : 6 ≤ fuel)
    (run : Run (ImageStep P fuel target vice ansi) s₀ es s) :
    ∃ pages, Watching P target vice pages s ∧ ∀ page, page ∈ pages ↔ Loaded ansi es page := by
  have first : Watching P target vice [] s₀ :=
    ⟨start.machine.monitored (by omega), (start.sound (by omega)).core⟩
  obtain ⟨pages, watching, loaded⟩ := first.run run start.machine.pointers enough
  exact ⟨pages, by rwa [List.append_nil] at watching, loaded⟩

/-- The EPT in force tells what a violation was about: the vice EPT forbids the pages, the target
EPT the others. -/
theorem Monitored.stopped_iff {s : Machine} {c : Core} {v : Violation} {n : Nat}
    (h : Monitored P target vice s pages k) (pointers : Pointers target vice)
    (core : c.Sound target vice n)
    (low : Below512G v.physicalAddress) (forbidden : allowsExecute s v c = false) :
    n % 2 = 0 ↔ pageOf v.physicalAddress ∈ pages := by
  by_cases even : n % 2 = 0
  · rw [h.allowsExecute_vice pointers low (core.pointer.trans (if_pos even)),
      Bool.not_eq_false'] at forbidden
    exact iff_of_true even (of_decide_eq_true forbidden)
  · rw [h.allowsExecute_target pointers low (core.pointer.trans (if_neg even))] at forbidden
    exact iff_of_false even (of_decide_eq_false forbidden)

/-- A driver named ACE-Game-0 that takes one page. -/
def oneImage : Image :=
  ⟨some ⟨some [0x41, 0x43, 0x45, 0x2d, 0x47, 0x61, 0x6d, 0x65, 0x2d, 0x30]⟩, 0, 0x5000, 0x1000, id⟩

/-- The characters of a code page that has the first 256 of Unicode. -/
def latin1 (text : List (BitVec 16)) : Option (List (BitVec 8)) :=
    some (text.map (BitVec.setWidth 8))

theorem oneImage_calls : oneImage.Watched latin1 ∧
    loadImageNotifyRoutine latin1 oneImage = some (some oneImage.call) := by
  have named : oneImage.Named latin1 [0x41, 0x43, 0x45, 0x2d, 0x47, 0x61, 0x6d, 0x65, 0x2d, 0x30] :=
    ⟨rfl, _, rfl, rfl⟩
  have watched : oneImage.Watched latin1 := ⟨_, named, _, List.infix_rfl, by decide⟩
  refine ⟨watched, ?_⟩
  cases returned : loadImageNotifyRoutine latin1 oneImage with
  | none =>
      obtain ⟨text, also, long⟩ := loadImageNotifyRoutine_overflows_iff.mp returned
      rw [← named.unique also] at long
      exact absurd long (by decide)
  | some call =>
      rcases loadImageNotifyRoutine_calls returned with ⟨-, same⟩ | ⟨unwatched, -⟩
      · rw [same]
      · exact absurd watched unwatched

theorem images_one_page : ∃ target vice s₀ s, s₀.Started coldPlatform 6 target vice ∧
    Run (ImageStep coldPlatform 6 target vice latin1) s₀ [.image oneImage] s ∧
    Loaded latin1 [.image oneImage] 5 ∧ ∀ j, s.core j = ⟨vice.eptpV, [], false⟩ := by
  obtain ⟨target, vice, s₀, s, k, start, run, -, vices⟩ := cores_one_page
  obtain ⟨watched, calls⟩ := oneImage_calls
  have page : (5 : Frame) ∈ oneImage.pages := by decide
  cases run with
  | cons first none =>
      cases none
      exact ⟨target, vice, s₀, s, start, .cons (.watched calls first) (.nil s),
        loaded_image.mpr ⟨watched, page⟩, vices⟩

/-- After any images, the target EPT may execute exactly the pages of the watched ones, and the vice
EPT exactly the others. -/
theorem images_monitored (start : s₀.Started P fuel target vice) (enough : 6 ≤ fuel)
    (run : Run (ImageStep P fuel target vice ansi) s₀ es s) {gpa : BitVec 64}
    (low : Below512G gpa) :
    (executable s.machine target gpa = true ↔ Loaded ansi es (pageOf gpa)) ∧
    (executable s.machine vice gpa = true ↔ ¬ Loaded ansi es (pageOf gpa)) := by
  obtain ⟨pages, watching, loaded⟩ := start.watching enough run
  obtain ⟨k, h⟩ := watching.monitored
  rw [h.executable_target low, h.executable_vice low, ← loaded]
  simp

theorem images_monitored_one_page : ∃ target vice s₀ s,
    Run (ImageStep coldPlatform 6 target vice latin1) s₀ [.image oneImage] s ∧
    executable s.machine target 0x5123 = true ∧ executable s.machine vice 0x5123 = false := by
  obtain ⟨target, vice, s₀, s, start, run, loaded, -⟩ := images_one_page
  have low : Below512G 0x5123 := (by decide : (0x5123 : BitVec 64).toNat < 2^39)
  have reached := images_monitored start (Nat.le_refl 6) run low
  refine ⟨target, vice, s₀, s, run, reached.1.mpr loaded, ?_⟩
  exact Bool.eq_false_of_not_eq_true fun allowed => reached.2.mp allowed loaded

/-- A violation is reported as an enter when a watched image was loaded to the page, and else as an
exit. -/
theorem callbacks_tell_images (start : s₀.Started P fuel target vice) (enough : 6 ≤ fuel)
    (run : Run (ImageStep P fuel target vice ansi) s₀ es s) {j : Nat} {v : Violation}
    (step : ImageStep P fuel target vice ansi s (.violation j v) t) :
    (Loaded ansi es (pageOf v.physicalAddress) →
      (t.core j).callbacks = (s.core j).callbacks ++ [.enter]) ∧
    (¬ Loaded ansi es (pageOf v.physicalAddress) →
      (t.core j).callbacks = (s.core j).callbacks ++ [.exit]) := by
  obtain ⟨pages, watching, loaded⟩ := start.watching enough run
  obtain ⟨k, h⟩ := watching.monitored
  obtain ⟨n, core⟩ := watching.core j
  have pointers := start.machine.pointers
  cases step with
  | violation step =>
      cases step with
      | @violation machine cores _ _ c execute low forbidden exit =>
          obtain ⟨c', handled, after, -⟩ := h.violation pointers core execute low forbidden
          rw [violationExit_eq handled] at exit
          cases exit
          have called : (Function.update cores j c j).callbacks = (cores j).callbacks ++
              [if n % 2 = 0 then .enter else .exit] := by
            rw [Function.update_self, after.callbacks, alternating_succ, core.callbacks]
          have status := (h.stopped_iff pointers core low forbidden).trans (loaded _)
          constructor
          · intro here
            rw [if_pos (status.mpr here)] at called
            exact called
          · intro missing
            rw [if_neg (mt status.mp missing)] at called
            exact called

theorem callbacks_tell_images_one_page : ∃ target vice s₀ s t,
    Run (ImageStep coldPlatform 6 target vice latin1) s₀ [.image oneImage] s ∧
    ImageStep coldPlatform 6 target vice latin1 s (.violation 0 ⟨4, 0x5123⟩) t ∧
    (t.core 0).callbacks = [.enter] := by
  obtain ⟨target, vice, s₀, s, start, run, loaded, vices⟩ := images_one_page
  obtain ⟨pages, watching, inPages⟩ := start.watching (Nat.le_refl 6) run
  obtain ⟨k, h⟩ := watching.monitored
  have pointers := start.machine.pointers
  have low : Below512G 0x5123 := (by decide : (0x5123 : BitVec 64).toNat < 2^39)
  have passed : pageOf 0x5123 ∈ pages := (inPages 5).mpr loaded
  have forbidden : allowsExecute s.machine ⟨4, 0x5123⟩ (s.core 0) = false := by
    rw [h.allowsExecute_vice pointers low (congrArg Core.eptPointer (vices 0)), Bool.not_eq_false']
    exact decide_eq_true passed
  obtain ⟨n, core⟩ := watching.core 0
  obtain ⟨c, handled, -⟩ := h.violation pointers core (by decide) low forbidden
  have step : ImageStep coldPlatform 6 target vice latin1 s (.violation 0 ⟨4, 0x5123⟩)
      ⟨s.machine, Function.update s.core 0 c⟩ :=
    .violation (.violation (by decide) low forbidden (violationExit_eq handled))
  have entered := (callbacks_tell_images start (Nat.le_refl 6) run step).1 loaded
  rw [vices 0] at entered
  exact ⟨target, vice, s₀, s, _, run, step, entered⟩

end Runs

end LMalz.Monitor
