import ForikOS.Core.Keyboard
import Mathlib.Logic.Function.Basic

/-!
# Modifier Keys

What the keyboard driver knows of the keys that are held down.

Every press and release of a key is one or two bytes for the handler, and after
them the prefix flag is off again. The handler keeps one flag for each kind of
modifier: a press sets it, and a release of any key of the kind clears it. So
the flag says whether the last event of the kind was a press. That is the same
as a held key, except when the key that was released last has left the other
one down.

## Main definitions

* `Key`, `KeyEvent`: A key and what happens to it.
* `isDown`: The keys that are down after some events.
* `lastOf`: The last event of a kind of keys.
* `FollowsKeys`: The flags say what is held.

## Theorems

* `handler_press`, `handler_release`: The bytes of one event.
* `typed_spec`: The flags after some events.
* `follows_keys_iff`: When the flags say what is held.
-/

namespace ForikOS

/-- A key: its make code, and whether `0xe0` comes before it. No key has the make
    code that would make `0xe0` of its break code. -/
structure Key where
  ext : Bool
  code : Byte
  valid : 0 < code ∧ code < 0x80 ∧ code ≠ 0x60
  deriving DecidableEq

/-- The three kinds of keys that the driver has a flag for. -/
inductive Modifier
  | ctrl
  | shift
  | alt
  deriving DecidableEq, Repr

/-- A press or a release. -/
structure KeyEvent where
  key : Key
  pressed : Bool
  deriving DecidableEq

/-- The kind of a key by its code: ctrl and alt on both sides, the right ones with
    the prefix, and the two shift keys. -/
def modifierOf (ext : Bool) (code : Byte) : Option Modifier :=
  if code = 0x1d then some .ctrl
  else if code = 0x38 then some .alt
  else if ext = false ∧ (code = 0x2a ∨ code = 0x36) then some .shift
  else none

namespace Key

/-- The kind of a key. -/
def modifier (k : Key) : Option Modifier := modifierOf k.ext k.code

/-- The key is caps lock. -/
def isCapsLock (k : Key) : Bool := !k.ext && k.code == 0x3a

end Key

/-- The bytes that the keyboard sends. -/
def KeyEvent.bytes (e : KeyEvent) : List Byte :=
  (if e.key.ext then [0xe0] else []) ++ [if e.pressed then e.key.code else e.key.code ||| 0x80]

/-- The driver after some events. -/
def typed (es : List KeyEvent) : Keyboard :=
  (es.flatMap KeyEvent.bytes).foldl intrKeyboardHandler Keyboard.init

/-- The keys that are down after some events. -/
def isDown (es : List KeyEvent) : Key → Bool :=
  es.foldl (fun down e => Function.update down e.key e.pressed) (fun _ => false)

/-- The last event of a kind of keys. -/
def lastOf (m : Modifier) (es : List KeyEvent) : Option KeyEvent :=
  (es.filter (fun e => e.key.modifier == some m)).getLast?

/-- How often caps lock has been pressed. -/
def capsPresses (es : List KeyEvent) : Nat := es.countP (fun e => e.key.isCapsLock && e.pressed)

/-- The flag of a kind of keys. -/
def Keyboard.status (k : Keyboard) : Modifier → Bool
  | .ctrl => k.ctrlStatus
  | .shift => k.shiftStatus
  | .alt => k.altStatus

/-- The flags of the driver say what the keys do. -/
structure FollowsKeys (es : List KeyEvent) (k : Keyboard) : Prop where
  status : ∀ m, k.status m = true ↔ ∃ key, key.modifier = some m ∧ isDown es key = true
  ext : k.extScancode = false
  caps : k.capsLockStatus = true ↔ capsPresses es % 2 = 1

/-- Every key is pressed and released in turn. -/
def Alternating (es : List KeyEvent) : Prop :=
  ∀ i (h : i < es.length), es[i].pressed = !isDown (es.take i) es[i].key

section Codes

/-- What holds of all bytes below 128 holds of the make codes. -/
theorem Key.forall_code {P : Bool → Byte → Prop}
    (h : ∀ ext, ∀ n, n < 128 → P ext (BitVec.ofNat 8 n)) (k : Key) : P k.ext k.code := by
  have hcode := h k.ext k.code.toNat (BitVec.lt_def.mp k.valid.2.1)
  rwa [BitVec.ofNat_toNat, BitVec.setWidth_eq] at hcode

/-- No code is taken for the prefix. -/
theorem Key.code_ne_prefix (k : Key) : k.code ≠ 0xe0 ∧ k.code ||| 0x80 ≠ 0xe0 := by
  have hall := Key.forall_code (P := fun _ c => c ≠ 0x60 → c ≠ 0xe0 ∧ c ||| 0x80 ≠ 0xe0)
    (by decide) k
  exact hall k.valid.2.2

/-- A make code has no bit seven, and a break code without it is the make code. -/
theorem Key.joinCode_break (k : Key) :
    joinCode k.ext k.code &&& 0x0080 = 0 ∧ joinCode k.ext (k.code ||| 0x80) &&& 0x0080 ≠ 0 ∧
      joinCode k.ext (k.code ||| 0x80) &&& 0xff7f = joinCode k.ext k.code :=
  Key.forall_code (P := fun ext c => joinCode ext c &&& 0x0080 = 0 ∧
    joinCode ext (c ||| 0x80) &&& 0x0080 ≠ 0 ∧
    joinCode ext (c ||| 0x80) &&& 0xff7f = joinCode ext c) (by decide) k

/-- A code is compared with the codes of the two keys of a kind. -/
def KindOf (code : BitVec 16) (m : Option Modifier) : Prop :=
  ((code = ctrlLMake ∨ code = ctrlRMake) ↔ m = some .ctrl) ∧
  ((code = shiftLMake ∨ code = shiftRMake) ↔ m = some .shift) ∧
  ((code = altLMake ∨ code = altRMake) ↔ m = some .alt)

instance (code : BitVec 16) (m : Option Modifier) : Decidable (KindOf code m) :=
  inferInstanceAs (Decidable (_ ∧ _))

theorem Key.kindOf (k : Key) : KindOf (joinCode k.ext k.code) k.modifier :=
  Key.forall_code (P := fun ext c => KindOf (joinCode ext c) (modifierOf ext c)) (by decide) k

/-- A make code that is looked up has two characters, and is no modifier, or it
    has none, and its low byte tells the kind. -/
theorem Key.known (k : Key) (h : Known (joinCode k.ext k.code)) :
    ((∀ shift, keyChar (joinCode k.ext k.code) shift ≠ 0) ∧ k.modifier = none ∧
      k.isCapsLock = false) ∨
    (∀ shift, keyChar (joinCode k.ext k.code) shift = 0) ∧
      KindOf (joinCode k.ext k.code &&& 0x00ff) k.modifier ∧
      (joinCode k.ext k.code &&& 0x00ff = capsLockMake ↔ k.isCapsLock = true) := by
  have hall := Key.forall_code (P := fun ext c => Known (joinCode ext c) →
    ((∀ shift, keyChar (joinCode ext c) shift ≠ 0) ∧ modifierOf ext c = none ∧
      (!ext && c == 0x3a) = false) ∨
    (∀ shift, keyChar (joinCode ext c) shift = 0) ∧
      KindOf (joinCode ext c &&& 0x00ff) (modifierOf ext c) ∧
      (joinCode ext c &&& 0x00ff = capsLockMake ↔ (!ext && c == 0x3a) = true)) (by decide) k
  exact hall h

/-- The other make codes are those of keys without a flag. -/
theorem Key.unknown (k : Key) (h : ¬Known (joinCode k.ext k.code)) :
    k.modifier = none ∧ k.isCapsLock = false := by
  have hall := Key.forall_code (P := fun ext c => ¬Known (joinCode ext c) →
    modifierOf ext c = none ∧ (!ext && c == 0x3a) = false) (by decide) k
  exact hall h

/-- Caps lock is not a modifier. -/
theorem Key.modifier_capsLock {k : Key} (h : k.isCapsLock = true) : k.modifier = none := by
  have hall := Key.forall_code (P := fun ext c => (!ext && c == 0x3a) = true →
    modifierOf ext c = none) (by decide) k
  exact hall h

end Codes

section Handler

variable {k : Keyboard} {code : BitVec 16} {kind : Option Modifier} {caps : Bool}

/-- What the handler does for an event: the flag of the kind is set or cleared,
    and caps lock is turned over. -/
structure Handled (k k' : Keyboard) (kind : Option Modifier) (pressed caps : Bool) : Prop where
  status : ∀ m, k'.status m = if kind = some m then pressed else k.status m
  ext : k'.extScancode = false
  caps : k'.capsLockStatus = if caps then !k.capsLockStatus else k.capsLockStatus

/-- A break code. -/
theorem release_spec (h : KindOf code kind) (hext : k.extScancode = false) :
    Handled k (k.release code) kind false false := by
  unfold KindOf at h
  unfold Keyboard.release
  simp only [h.1, h.2.1, h.2.2]
  cases kind with
  | none => exact ⟨fun m => by cases m <;> rfl, hext, rfl⟩
  | some kind => cases kind <;> exact ⟨fun m => by cases m <;> rfl, hext, rfl⟩

/-- A make code without a character. -/
theorem control_spec (h : KindOf code kind) (hcaps : code = capsLockMake ↔ caps = true)
    (hnone : caps = true → kind = none) (hext : k.extScancode = false) :
    Handled k (k.control code) kind true caps := by
  unfold KindOf at h
  unfold Keyboard.control
  simp only [h.1, h.2.1, h.2.2, hcaps]
  cases caps with
  | true =>
      rw [hnone rfl]
      exact ⟨fun m => by cases m <;> rfl, hext, rfl⟩
  | false =>
      cases kind with
      | none => exact ⟨fun m => by cases m <;> rfl, hext, rfl⟩
      | some kind => cases kind <;> exact ⟨fun m => by cases m <;> rfl, hext, rfl⟩

/-- A character changes the buffer only. -/
theorem type_spec (hext : k.extScancode = false) (curChar : Byte) (pressed : Bool) :
    Handled k (k.type curChar) none pressed false := by
  unfold Keyboard.type
  dsimp only
  split <;> exact ⟨fun m => by cases m <;> rfl, hext, rfl⟩

/-- A make code. -/
theorem press_spec (hext : k.extScancode = false) (key : Key) :
    Handled k (k.press (joinCode key.ext key.code)) key.modifier true key.isCapsLock := by
  unfold Keyboard.press
  by_cases hknown : Known (joinCode key.ext key.code)
  · rw [if_pos hknown]
    dsimp only
    rcases key.known hknown with ⟨hchar, hnone, hcaps⟩ | ⟨hchar, hkind, hcaps⟩
    · rw [if_pos (hchar _), hnone, hcaps]
      exact type_spec hext _ true
    · rw [if_neg (fun hne => hne (hchar _))]
      exact control_spec hkind hcaps Key.modifier_capsLock hext
  · rcases key.unknown hknown with ⟨hnone, hcaps⟩
    rw [if_neg hknown, hnone, hcaps]
    exact ⟨fun m => by cases m <;> rfl, hext, rfl⟩

theorem prefix_off (hext : k.extScancode = false) : { k with extScancode := false } = k := by
  rw [← hext]

/-- The bytes of an event set the prefix flag for the last of them. -/
theorem foldl_bytes (hext : k.extScancode = false) (e : KeyEvent) :
    e.bytes.foldl intrKeyboardHandler k = intrKeyboardHandler { k with extScancode := e.key.ext }
      (if e.pressed then e.key.code else e.key.code ||| 0x80) := by
  unfold KeyEvent.bytes
  cases e.key.ext with
  | true => rfl
  | false =>
      rw [prefix_off hext]
      rfl

/-- One event. -/
theorem handled_spec (hext : k.extScancode = false) (e : KeyEvent) :
    Handled k (e.bytes.foldl intrKeyboardHandler k) e.key.modifier e.pressed
      (e.key.isCapsLock && e.pressed) := by
  rw [foldl_bytes hext, intrKeyboardHandler]
  cases e.pressed with
  | true =>
      rw [if_pos rfl, if_neg e.key.code_ne_prefix.1]
      dsimp only
      rw [prefix_off hext, if_neg (fun hne => hne e.key.joinCode_break.1), Bool.and_true]
      exact press_spec hext e.key
  | false =>
      rw [if_neg Bool.false_ne_true, if_neg e.key.code_ne_prefix.2]
      dsimp only
      rw [prefix_off hext, if_pos e.key.joinCode_break.2.1, e.key.joinCode_break.2.2, Bool.and_false]
      exact release_spec e.key.kindOf hext

end Handler

section Events

theorem typed_snoc (es : List KeyEvent) (e : KeyEvent) :
    typed (es ++ [e]) = e.bytes.foldl intrKeyboardHandler (typed es) := by
  rw [typed, List.flatMap_append, List.foldl_append, List.flatMap_singleton]
  rfl

theorem isDown_snoc (es : List KeyEvent) (e : KeyEvent) :
    isDown (es ++ [e]) = Function.update (isDown es) e.key e.pressed := by
  rw [isDown, List.foldl_append]
  rfl

theorem lastOf_snoc (m : Modifier) (es : List KeyEvent) (e : KeyEvent) :
    lastOf m (es ++ [e]) = if e.key.modifier = some m then some e else lastOf m es := by
  unfold lastOf
  rw [List.filter_append, List.filter_singleton]
  by_cases hm : e.key.modifier = some m
  · rw [if_pos hm, beq_iff_eq.mpr hm, cond_true, List.getLast?_concat]
  · rw [if_neg hm, beq_eq_false_iff_ne.mpr hm, cond_false, List.append_nil]

/-- The flags after some events: each says whether the last event of its kind was
    a press. -/
theorem typed_spec (es : List KeyEvent) :
    (∀ m, (typed es).status m = true ↔ ∃ e, lastOf m es = some e ∧ e.pressed = true) ∧
      (typed es).extScancode = false ∧
      ((typed es).capsLockStatus = true ↔ capsPresses es % 2 = 1) := by
  induction es using List.reverseRecOn with
  | nil =>
      refine ⟨fun m => ?_, rfl, by decide⟩
      have hstatus : (typed []).status m = false := by cases m <;> rfl
      have hlast : lastOf m [] = none := rfl
      rw [hstatus, hlast]
      exact iff_of_false Bool.false_ne_true (fun ⟨_, h, _⟩ => Option.some_ne_none _ h.symm)
  | append_singleton es e ih =>
      rcases ih with ⟨hstatus, hext, hcaps⟩
      have hstep := handled_spec hext e
      rw [typed_snoc]
      refine ⟨fun m => ?_, hstep.ext, ?_⟩
      · rw [hstep.status, lastOf_snoc]
        -- An event of the kind is the last one of it now, whatever its key.
        by_cases hm : e.key.modifier = some m
        · rw [if_pos hm, if_pos hm]
          simp only [Option.some.injEq, exists_eq_left']
        · rw [if_neg hm, if_neg hm]
          exact hstatus m
      · rw [hstep.caps]
        unfold capsPresses at hcaps ⊢
        rw [List.countP_append, List.countP_singleton]
        by_cases hpress : (e.key.isCapsLock && e.pressed) = true
        · rw [if_pos hpress, if_pos hpress, Bool.not_eq_true', ← Bool.not_eq_true, hcaps]
          omega
        · rw [if_neg hpress, if_neg hpress, Nat.add_zero]
          exact hcaps

/-- A key whose kind has had no event is up, and the last event of a kind tells
    about its own key. -/
theorem isDown_lastOf {m : Modifier} (es : List KeyEvent) :
    (lastOf m es = none → ∀ key, key.modifier = some m → isDown es key = false) ∧
      ∀ e, lastOf m es = some e → e.key.modifier = some m ∧ isDown es e.key = e.pressed := by
  induction es using List.reverseRecOn with
  | nil => exact ⟨fun _ _ _ => rfl, fun e he => absurd he.symm (Option.some_ne_none e)⟩
  | append_singleton es d ih =>
      rw [lastOf_snoc, isDown_snoc]
      by_cases hm : d.key.modifier = some m
      · rw [if_pos hm]
        refine ⟨fun h => absurd h (Option.some_ne_none d), fun e he => ?_⟩
        obtain rfl := Option.some.inj he
        exact ⟨hm, Function.update_self _ _ _⟩
      · rw [if_neg hm]
        -- The event was not about a key of the kind.
        have hother : ∀ key : Key, key.modifier = some m → key ≠ d.key := by
          rintro key hkey rfl
          exact hm hkey
        refine ⟨fun h key hkey => ?_, fun e he => ?_⟩
        · rw [Function.update_of_ne (hother key hkey)]
          exact ih.1 h key hkey
        · rcases ih.2 e he with ⟨hkey, hdown⟩
          rw [Function.update_of_ne (hother e.key hkey)]
          exact ⟨hkey, hdown⟩

/-- The flags say what is held if and only if, for each kind of modifier, the
    last event of its keys was not a release that has left a key of the kind
    down. -/
theorem follows_keys_iff (es : List KeyEvent) :
    FollowsKeys es (typed es) ↔
      ∀ m e, lastOf m es = some e → e.pressed = false →
        ∀ key, key.modifier = some m → isDown es key = false := by
  rcases typed_spec es with ⟨hstatus, hext, hcaps⟩
  constructor
  · -- A key that is down would have the flag set by a last event that was a press.
    intro hfollows m e he hup key hkey
    by_contra hdown
    rw [Bool.not_eq_false] at hdown
    rcases (hstatus m).mp ((hfollows.status m).mpr ⟨key, hkey, hdown⟩) with ⟨d, hd, hpressed⟩
    obtain rfl := Option.some.inj (hd.symm.trans he)
    exact Bool.false_ne_true (hup.symm.trans hpressed)
  · intro hleft
    refine ⟨fun m => ?_, hext, hcaps⟩
    rw [hstatus m]
    constructor
    · -- The key that was pressed last is the one that is held.
      rintro ⟨e, he, hpressed⟩
      rcases (isDown_lastOf es).2 e he with ⟨hkey, hdown⟩
      exact ⟨e.key, hkey, hdown.trans hpressed⟩
    · -- A held key has had an event, and the last of its kind cannot be a release.
      rintro ⟨key, hkey, hdown⟩
      cases he : lastOf m es with
      | none => exact absurd ((isDown_lastOf es).1 he key hkey) (by rw [hdown]; decide)
      | some e =>
          refine ⟨e, rfl, ?_⟩
          by_contra hup
          rw [Bool.not_eq_true] at hup
          exact Bool.false_ne_true ((hleft m e he hup key hkey).symm.trans hdown)

/-- The two ctrl keys. -/
def ctrlKey (right : Bool) : Key := ⟨right, 0x1d, by decide⟩

/-- Both ctrl keys are pressed and the left one is released. -/
def ctrlOverlap : List KeyEvent :=
  [⟨ctrlKey false, true⟩, ⟨ctrlKey true, true⟩, ⟨ctrlKey false, false⟩]

/-- The right ctrl key is still down, and the flag is off. -/
theorem ctrl_overlap_lost : Alternating ctrlOverlap ∧ ¬FollowsKeys ctrlOverlap (typed ctrlOverlap) := by
  constructor
  · unfold Alternating
    decide
  · intro hfollows
    have hdown : isDown ctrlOverlap (ctrlKey true) = true := by decide
    have hstatus := (hfollows.status .ctrl).mpr ⟨ctrlKey true, rfl, hdown⟩
    exact absurd hstatus (by decide)

end Events

end ForikOS
