import RtcCore.L1Wire.ByteBuffer
import RtcCore.L1Wire.Stun

/-!
# `rtc::ByteBuffer`, runs

A session is a buffer with the read positions that were taken of it. A tape is what a
session is for: the octets that are unread, and for each position what it would make
readable again, unless the octets were moved since.

A write moves the octets where it finds no room (`moves`), which the tape is told. What
`ReserveWriteBuffer` leaves in the octets its caller does not write is not known either,
so the tape is told what was added, with what the operation says about it (`Adds`).

Results:
* `step_simulates`: an allowed operation is defined and does to the tape what it says.
* `Reaches.restores`: a read position over a run.
* `runs_refine`: the buffer over all runs, with `buffer_wraps` for what is not allowed.
-/
namespace RtcCore.L1.Base

open Base.ByteBuffer

/-- The operations; a caller of `ReserveWriteBuffer` writes `val` to what it reserved. -/
inductive Op where
  | readUInt (w : Width)
  | readBytes (len : Nat)
  | readString (val : Bytes) (len : Nat)
  | writeUInt (w : Width) (val : Nat)
  | writeBytes (val : Bytes)
  | writeString (val : Bytes)
  | reserveWriteBuffer (len : Nat) (val : Bytes)
  | resize (size : Nat)
  | consume (size : Nat)
  | getReadPosition
  | setReadPosition (i : Nat)
  | clear
  deriving DecidableEq, Repr

inductive Output where
  | done
  | number (val : Option Nat)
  | octets (val : Option Bytes)
  | bool (ok : Bool)
  deriving DecidableEq, Repr

def Output.failed : Output → Bool
  | .done => false
  | .number val => val.isNone
  | .octets val => val.isNone
  | .bool ok => !ok

/-- How many octets the operation adds. -/
def Op.size : Op → Nat
  | .writeUInt w _ => w.octets
  | .writeBytes val => val.length
  | .writeString val => val.length
  | .reserveWriteBuffer len _ => len
  | _ => 0

/-- What the operation says about the octets it adds. -/
def Op.Adds (big : Bool) (order : ByteOrder) (added : Bytes) : Op → Prop
  | .writeUInt w val => added = ByteBuffer.octets big order w.octets val
  | .writeBytes val => added = val
  | .writeString val => added = val
  | .reserveWriteBuffer len val => added.length = len ∧ val <+: added
  | _ => added = []

/-! ## Sessions -/

/-- A buffer with the read positions that were taken. -/
structure Session where
  buffer : ByteBuffer
  marks : List ReadPosition
  deriving DecidableEq, Repr

namespace Session

def step (fresh : Nat → UInt8) (big : Bool) (s : Session) : Op → Option (Output × Session)
  | .readUInt w => do
    let (val, buffer) ← s.buffer.readUInt big w
    return (.number val, { s with buffer })
  | .readBytes len => do
    let (val, buffer) ← s.buffer.readBytes len
    return (.octets val, { s with buffer })
  | .readString val len => do
    let (val, buffer) ← s.buffer.readString val len
    return (.octets val, { s with buffer })
  | .writeUInt w val => do
    let buffer ← s.buffer.writeUInt fresh big w val
    return (.done, { s with buffer })
  | .writeBytes val => do
    let buffer ← s.buffer.writeBytes fresh val
    return (.done, { s with buffer })
  | .writeString val => do
    let buffer ← s.buffer.writeString fresh val
    return (.done, { s with buffer })
  | .reserveWriteBuffer len val => do
    let buffer ← s.buffer.fill fresh len val
    return (.done, { s with buffer })
  | .resize size => do
    let buffer ← s.buffer.resize fresh size
    return (.done, { s with buffer })
  | .consume size =>
    let (ok, buffer) := s.buffer.consume size
    some (.bool ok, { s with buffer })
  | .getReadPosition => some (.done, { s with marks := s.marks ++ [s.buffer.getReadPosition] })
  | .setReadPosition i =>
    match s.marks[i]? with
    | some position =>
      let (ok, buffer) := s.buffer.setReadPosition position
      some (.bool ok, { s with buffer })
    | none => some (.bool false, s)
  | .clear => do
    let buffer ← s.buffer.clear
    return (.done, { s with buffer })

def run (fresh : Nat → UInt8) (big : Bool) (s : Session) : List Op → Option Session
  | [] => some s
  | op :: ops => do
    let (_, s') ← s.step fresh big op
    run fresh big s' ops

/-- The version can be counted up where the operation does, the array it asks for can be
had, and a caller stays in what it reserved. -/
def Allows (s : Session) : Op → Prop
  | .reserveWriteBuffer len val => s.buffer.Room len ∧ val.length ≤ len
  | .resize size => s.buffer.Resizable size
  | .clear => s.buffer.version < 2147483647
  | .writeUInt w _ => s.buffer.Room w.octets
  | .writeBytes val | .writeString val => s.buffer.Room val.length
  | _ => True

/-- What the operation has just added. -/
def added (s' : Session) (op : Op) : Bytes :=
  s'.buffer.written.drop (s'.buffer.stop - op.size)

/-- The sessions that allowed operations reach, with the octets written on the way. -/
inductive Reaches (fresh : Nat → UInt8) (big : Bool) (s : Session) : Bytes → Session → Prop
  | refl : Reaches fresh big s [] s
  | step {log : Bytes} {op : Op} {out : Output} {s' s'' : Session} :
      Reaches fresh big s log s' → s'.Allows op → s'.step fresh big op = some (out, s'') →
      Reaches fresh big s (log ++ s''.added op) s''

end Session

/-! ## Tapes -/

/-- What is unread, and what each position makes readable again. -/
structure Tape where
  unread : Bytes
  marks : List (Option Bytes)
  deriving DecidableEq, Repr

namespace Tape

def read (t : Tape) (len : Nat) (out : Option Bytes → Output) : Output × Tape :=
  match L1.ByteBuffer.readBytes len t.unread with
  | some (val, rest) => (out (some val), { t with unread := rest })
  | none => (out none, t)

def append (t : Tape) (moved : Bool) (added : Bytes) : Tape :=
  ⟨t.unread ++ added, t.marks.map fun mark => if moved then none else mark.map (· ++ added)⟩

def cut (t : Tape) (size : Nat) : Tape := ⟨t.unread.take size, t.marks.map fun _ => none⟩

def step (big : Bool) (order : ByteOrder) (moved : Bool) (added : Bytes) (t : Tape) :
    Op → Output × Tape
  | .readUInt w => t.read w.octets fun val => .number (val.map (value big order))
  | .readBytes len => t.read len .octets
  | .readString val len => t.read len fun read => .octets (read.map (val ++ ·))
  | .consume size =>
    match L1.ByteBuffer.consume size t.unread with
    | some rest => (.bool true, { t with unread := rest })
    | none => (.bool false, t)
  | .resize size => (.done, t.cut size)
  | .clear => (.done, t.cut 0)
  | .getReadPosition => (.done, { t with marks := t.marks ++ [some t.unread] })
  | .setReadPosition i =>
    match t.marks[i]? with
    | some (some rest) => (.bool true, { t with unread := rest })
    | _ => (.bool false, t)
  | _ => (.done, t.append moved added)

end Tape

namespace Session

variable {fresh : Nat → UInt8} {big : Bool} {s s' s'' : Session} {op : Op} {out : Output}

def restorable (b : ByteBuffer) (position : ReadPosition) : Option Bytes :=
  if position.version = b.version then some (b.written.drop position.start) else none

def tape (s : Session) : Tape := ⟨s.buffer.unread, s.marks.map (restorable s.buffer)⟩

/-- The positions are not newer than the buffer, and lie in it where they are as new. -/
structure Sound (s : Session) : Prop where
  fits : s.buffer.Fits
  version_le : ∀ p ∈ s.marks, p.version ≤ s.buffer.version
  start_le : ∀ p ∈ s.marks, p.version = s.buffer.version → p.start ≤ s.buffer.stop

variable {b' : ByteBuffer} {moved : Bool} {xs added : Bytes} {len : Nat}

theorem Sound.goTo (h : s.Sound) {start : Nat} (hstart : start ≤ s.buffer.stop) :
    ({ s with buffer := { s.buffer with start } } : Session).Sound :=
  ⟨h.fits.start_fits hstart, h.version_le, h.start_le⟩

/-- Where the octets were moved no position is left. -/
theorem Sound.cut (h : s.Sound) (hb : s.buffer.Changes true xs b') :
    ({ s with buffer := b' } : Session).Sound ∧
      ({ s with buffer := b' } : Session).tape = ⟨xs, s.tape.marks.map fun _ => none⟩ := by
  have hversion : b'.version = s.buffer.version + 1 := hb.version_eq
  have hold : ∀ p ∈ s.marks, p.version < b'.version := by
    intro p hp
    have := h.version_le p hp
    omega
  refine ⟨⟨hb.fits, fun p hp => (hold p hp).le, fun p hp heq => ?_⟩, ?_⟩
  · exact absurd heq (hold p hp).ne
  · have hstart : b'.start = 0 := hb.start_eq
    have hmarks : s.marks.map (restorable b') =
        (s.marks.map (restorable s.buffer)).map fun _ => none := by
      rw [List.map_map]
      exact List.map_congr_left fun p hp => if_neg (hold p hp).ne
    show Tape.mk (b'.written.drop b'.start) (s.marks.map (restorable b')) = _
    rw [hstart, List.drop_zero, hb.written_eq, hmarks]
    rfl

theorem Sound.keep (h : s.Sound)
    (hb : s.buffer.Changes false (s.buffer.written ++ added) b') :
    ({ s with buffer := b' } : Session).Sound ∧
      ({ s with buffer := b' } : Session).tape = s.tape.append false added := by
  have hversion : b'.version = s.buffer.version := hb.version_eq
  have hstart : b'.start = s.buffer.start := hb.start_eq
  have hlength := h.fits.written_length
  have hstop := hb.stop_eq
  rw [List.length_append, hlength] at hstop
  refine ⟨⟨hb.fits, ?_, ?_⟩, ?_⟩
  · show ∀ p ∈ s.marks, p.version ≤ b'.version
    rw [hversion]
    exact h.version_le
  · show ∀ p ∈ s.marks, p.version = b'.version → p.start ≤ b'.stop
    intro p hp heq
    have := h.start_le p hp (heq.trans hversion)
    omega
  · have hmarks : s.marks.map (restorable b') =
        (s.marks.map (restorable s.buffer)).map fun mark => mark.map (· ++ added) := by
      rw [List.map_map]
      refine List.map_congr_left fun p hp => ?_
      show (if p.version = b'.version then some (b'.written.drop p.start) else none) =
        (if p.version = s.buffer.version then some (s.buffer.written.drop p.start)
          else none).map (· ++ added)
      rw [hversion]
      split
      · rename_i heq
        have := h.start_le p hp heq
        rw [hb.written_eq, List.drop_append_of_le_length (by omega)]
        rfl
      · rfl
    show Tape.mk (b'.written.drop b'.start) (s.marks.map (restorable b')) =
      Tape.mk (s.buffer.written.drop s.buffer.start ++ added) _
    have := h.fits.start_le
    rw [hstart, hmarks, hb.written_eq, List.drop_append_of_le_length (by omega)]
    rfl

/-- A write adds to the tape. -/
theorem Sound.append (h : s.Sound)
    (hb : s.buffer.Changes (s.buffer.moves len) (s.buffer.base len ++ added) b') :
    ({ s with buffer := b' } : Session).Sound ∧
      ({ s with buffer := b' } : Session).tape = s.tape.append (s.buffer.moves len) added := by
  cases hmoves : s.buffer.moves len with
  | true =>
    rw [base, hmoves, if_pos rfl] at hb
    obtain ⟨hsound, htape⟩ := h.cut hb
    exact ⟨hsound, htape⟩
  | false =>
    rw [base, hmoves, if_neg Bool.false_ne_true] at hb
    exact h.keep hb

/-! ## One operation -/

theorem Sound.added_none (h : s.Sound) (hsize : op.size = 0) : s.added op = [] := by
  rw [added, hsize, Nat.sub_zero, ← h.fits.written_length, List.drop_length]

theorem Sound.read (h : s.Sound) (len : Nat) :
    ∃ val b', s.buffer.readBytes len = some (val, b') ∧
      ({ s with buffer := b' } : Session).Sound ∧ b'.byteOrder = s.buffer.byteOrder ∧
      (∀ out, s.tape.read len out = (out val, ({ s with buffer := b' } : Session).tape)) ∧
      (val = none → b' = s.buffer) := by
  by_cases hlen : len ≤ s.buffer.unread.length
  · refine ⟨_, _, h.fits.readBytes_fits hlen,
      ⟨h.fits.skip_fits hlen, h.version_le, h.start_le⟩, rfl, fun out => ?_, nofun⟩
    rw [Tape.read, L1.ByteBuffer.readBytes, if_neg (by exact Nat.not_lt.2 hlen)]
    show (_, Tape.mk _ _) = (_, Tape.mk _ _)
    rw [unread_skip]
    rfl
  · refine ⟨_, _, h.fits.readBytes_short (Nat.not_le.1 hlen), h, rfl, fun out => ?_, fun _ => rfl⟩
    rw [Tape.read, L1.ByteBuffer.readBytes, if_pos (by exact Nat.not_le.1 hlen)]

theorem Sound.fill (h : s.Sound) (fresh : Nat → UInt8) {val : Bytes} (hr : s.buffer.Room len)
    (hval : val.length ≤ len) :
    ∃ b', s.buffer.fill fresh len val = some b' ∧
      ({ s with buffer := b' } : Session).Sound ∧ b'.byteOrder = s.buffer.byteOrder ∧
      ∃ rest, rest.length = len - val.length ∧
        b'.written.drop (b'.stop - len) = val ++ rest ∧
        ({ s with buffer := b' } : Session).tape =
          s.tape.append (s.buffer.moves len) (val ++ rest) := by
  obtain ⟨b', rest, hfill, hrest, hb⟩ := h.fits.fill_fits fresh hr hval
  obtain ⟨hsound, htape⟩ := h.append hb
  refine ⟨b', hfill, hsound, hb.byteOrder_eq, rest, hrest, ?_, htape⟩
  have hstop := hb.stop_eq
  simp only [List.length_append] at hstop
  rw [hb.written_eq, show b'.stop - len = (s.buffer.base len).length by omega, List.drop_left]

/-- What an allowed operation makes of the session, and of its tape. -/
structure Simulates (big : Bool) (s : Session) (op : Op) (out : Output) (s' : Session) : Prop where
  sound : s'.Sound
  order : s'.buffer.byteOrder = s.buffer.byteOrder
  adds : op.Adds big s.buffer.byteOrder (s'.added op)
  tape : s.tape.step big s.buffer.byteOrder (s.buffer.moves op.size) (s'.added op) op =
    (out, s'.tape)
  unchanged : out.failed = true → s' = s

theorem simulates_read (h : s.Sound) (len : Nat) (out : Option Bytes → Output)
    (hstep : s.step fresh big op =
      (s.buffer.readBytes len).map fun r => (out r.1, { s with buffer := r.2 }))
    (htape : ∀ moved added, s.tape.step big s.buffer.byteOrder moved added op =
      s.tape.read len out)
    (hsize : op.size = 0) (hadds : op.Adds big s.buffer.byteOrder [])
    (hout : ∀ val, (out val).failed = true → val = none) :
    ∃ out s', s.step fresh big op = some (out, s') ∧ Simulates big s op out s' := by
  obtain ⟨val, b', hread, hsound, horder, hsame, hunchanged⟩ := h.read len
  rw [hread] at hstep
  refine ⟨_, _, hstep, hsound, horder, ?_, (htape _ _).trans (hsame out), fun hfailed => ?_⟩
  · rw [hsound.added_none hsize]
    exact hadds
  · show Session.mk b' s.marks = s
    rw [hunchanged (hout val hfailed)]

theorem simulates_write (fresh : Nat → UInt8) (big : Bool) (op : Op) (h : s.Sound) {val : Bytes}
    (hr : s.buffer.Room val.length)
    (hsize : op.size = val.length) (hadds : op.Adds big s.buffer.byteOrder val)
    (htape : ∀ moved added, s.tape.step big s.buffer.byteOrder moved added op =
      (.done, s.tape.append moved added)) :
    ∃ b', s.buffer.writeBytes fresh val = some b' ∧
      Simulates big s op .done { s with buffer := b' } := by
  obtain ⟨b', hfill, hsound, horder, rest, hrest, hadded, happend⟩ :=
    h.fill fresh hr (Nat.le_refl _)
  have hnil : rest = [] := List.length_eq_zero_iff.1 (by omega)
  rw [hnil, List.append_nil] at hadded happend
  have hop : ({ s with buffer := b' } : Session).added op = val := by
    rw [added, hsize]
    exact hadded
  refine ⟨b', (writeBytes_eq fresh s.buffer val).trans hfill, hsound, horder, ?_, ?_, nofun⟩
  · rw [hop]
    exact hadds
  · rw [hop, htape, hsize, happend]

theorem step_simulates (fresh : Nat → UInt8) (big : Bool) (h : s.Sound) (hop : s.Allows op) :
    ∃ out s', s.step fresh big op = some (out, s') ∧ Simulates big s op out s' := by
  have hwrite {b' : ByteBuffer} {o : Option ByteBuffer} (ho : o = some b') :
      (do let buffer ← o; return (Output.done, { s with buffer })) =
        some (Output.done, { s with buffer := b' }) := by
    rw [ho]
    rfl
  cases op with
  | readUInt w =>
    refine simulates_read h w.octets (fun val => .number (val.map (value big s.buffer.byteOrder)))
      ?_ (fun _ _ => rfl) rfl rfl fun val hval => ?_
    · show (do let (val, buffer) ← s.buffer.readUInt big w; return _) = _
      rw [readUInt_eq]
      cases s.buffer.readBytes w.octets <;> rfl
    · cases val with
      | none => rfl
      | some val => exact nomatch hval
  | readBytes len =>
    refine simulates_read h len .octets ?_ (fun _ _ => rfl) rfl rfl fun val hval => ?_
    · show (do let (val, buffer) ← s.buffer.readBytes len; return _) = _
      cases s.buffer.readBytes len <;> rfl
    · exact Option.isNone_iff_eq_none.1 hval
  | readString val len =>
    refine simulates_read h len (fun read => .octets (read.map (val ++ ·))) ?_ (fun _ _ => rfl)
      rfl rfl fun read hread => ?_
    · show (do let (val, buffer) ← s.buffer.readString val len; return _) = _
      rw [readString_eq]
      cases s.buffer.readBytes len <;> rfl
    · cases read with
      | none => rfl
      | some read => exact nomatch hread
  | writeUInt w val =>
    have hlength := octets_length big s.buffer.byteOrder w.octets val
    obtain ⟨b', hb, hs⟩ := simulates_write fresh big (.writeUInt w val) h
      (hlength.symm ▸ hop) hlength.symm rfl fun _ _ => rfl
    exact ⟨_, _, hwrite ((writeUInt_eq fresh big s.buffer w val).trans hb), hs⟩
  | writeBytes val =>
    obtain ⟨b', hb, hs⟩ := simulates_write fresh big (.writeBytes val) h
      hop rfl rfl fun _ _ => rfl
    exact ⟨_, _, hwrite hb, hs⟩
  | writeString val =>
    obtain ⟨b', hb, hs⟩ := simulates_write fresh big (.writeString val) h
      hop rfl rfl fun _ _ => rfl
    exact ⟨_, _, hwrite hb, hs⟩
  | reserveWriteBuffer len val =>
    obtain ⟨b', hb, hsound, horder, rest, hrest, hadded, htape⟩ :=
      h.fill fresh hop.1 hop.2
    have hop' : ({ s with buffer := b' } : Session).added (.reserveWriteBuffer len val) =
        val ++ rest := hadded
    refine ⟨_, _, hwrite hb, hsound, horder, ?_, ?_, nofun⟩
    · rw [hop']
      refine ⟨?_, List.prefix_append val rest⟩
      have := hop.2
      rw [List.length_append]
      omega
    · rw [hop']
      exact congrArg _ htape.symm
  | resize size =>
    obtain ⟨b', hb, hchanges, -⟩ := h.fits.resize_fits fresh hop
    obtain ⟨hsound, htape⟩ := h.cut hchanges
    exact ⟨_, _, hwrite hb, hsound, hchanges.byteOrder_eq, hsound.added_none rfl,
      congrArg _ htape.symm, nofun⟩
  | consume size =>
    by_cases hsize : size ≤ s.buffer.unread.length
    · have hsound : ({ s with buffer := { s.buffer with start := s.buffer.start + size } } :
          Session).Sound := ⟨h.fits.skip_fits hsize, h.version_le, h.start_le⟩
      refine ⟨.bool true, _, ?_, hsound, rfl, hsound.added_none rfl, ?_, nofun⟩
      · rw [step, ByteBuffer.consume, h.fits.length_eq, if_neg (Nat.not_lt.2 hsize)]
      · rw [Tape.step, L1.ByteBuffer.consume, if_neg (by exact Nat.not_lt.2 hsize)]
        exact congrArg (fun rest => (_, Tape.mk rest _)) (unread_skip s.buffer size).symm
    · refine ⟨.bool false, s, ?_, h, rfl, h.added_none rfl, ?_, fun _ => rfl⟩
      · rw [step, ByteBuffer.consume, h.fits.length_eq, if_pos (Nat.not_le.1 hsize)]
      · rw [Tape.step, L1.ByteBuffer.consume, if_pos (by exact Nat.not_le.1 hsize)]
  | getReadPosition =>
    have hsound : ({ s with marks := s.marks ++ [s.buffer.getReadPosition] } : Session).Sound := by
      refine ⟨h.fits, fun p hp => ?_, fun p hp heq => ?_⟩
      all_goals rcases List.mem_append.1 hp with hp | hp
      · exact h.version_le p hp
      · rw [List.mem_singleton.1 hp]
        exact Int.le_refl _
      · exact h.start_le p hp heq
      · rw [List.mem_singleton.1 hp]
        exact h.fits.start_le
    refine ⟨.done, _, rfl, hsound, rfl, hsound.added_none rfl, ?_, nofun⟩
    have hlast : restorable s.buffer s.buffer.getReadPosition = some s.buffer.unread := if_pos rfl
    rw [Tape.step, tape, tape, List.map_append, List.map_singleton, hlast]
  | setReadPosition i =>
    have hmarks : s.tape.marks[i]? = s.marks[i]?.map (restorable s.buffer) := List.getElem?_map
    cases hi : s.marks[i]? with
    | none =>
      refine ⟨.bool false, s, ?_, h, rfl, h.added_none rfl, ?_, fun _ => rfl⟩
      · rw [step, hi]
      · rw [Tape.step, hmarks, hi]
        rfl
    | some p =>
      have hp : p ∈ s.marks := List.mem_of_getElem? hi
      by_cases hversion : p.version = s.buffer.version
      · have hsound := h.goTo (h.start_le p hp hversion)
        refine ⟨.bool true, _, ?_, hsound, rfl, hsound.added_none rfl, ?_, nofun⟩
        · rw [step, hi]
          dsimp only
          rw [setReadPosition, if_neg (not_not_intro hversion)]
        · rw [Tape.step, hmarks, hi, Option.map_some, restorable, if_pos hversion]
          rfl
      · refine ⟨.bool false, s, ?_, h, rfl, h.added_none rfl, ?_, fun _ => rfl⟩
        · rw [step, hi]
          dsimp only
          rw [setReadPosition, if_pos hversion]
        · rw [Tape.step, hmarks, hi, Option.map_some, restorable, if_neg hversion]
  | clear =>
    obtain ⟨b', hb, hchanges⟩ := h.fits.clear_fits hop
    obtain ⟨hsound, htape⟩ := h.cut hchanges
    exact ⟨_, _, hwrite hb, hsound, hchanges.byteOrder_eq, hsound.added_none rfl,
      congrArg _ htape.symm, nofun⟩

end Session

/-! ## Runs -/

namespace Tape

variable {big moved : Bool} {order : ByteOrder} {added : Bytes} {t : Tape} {op : Op} {i : Nat}
  {mark : Option Bytes}

theorem read_marks (t : Tape) (len : Nat) (out : Option Bytes → Output) :
    (t.read len out).2.marks = t.marks := by
  unfold read
  split <;> rfl

/-- A position is lost, or what was added is readable behind it as well. -/
theorem step_marks (hi : t.marks[i]? = some mark) (hadds : op.Adds big order added) :
    (t.step big order moved added op).2.marks[i]? = some none ∨
      (t.step big order moved added op).2.marks[i]? = some (mark.map (· ++ added)) := by
  have hsame (hadded : added = []) : t.marks[i]? = some (mark.map (· ++ added)) := by
    rw [hi, hadded]
    simp only [List.append_nil, Option.map_id_fun']
    rfl
  have happend : (t.append moved added).marks[i]? = some none ∨
      (t.append moved added).marks[i]? = some (mark.map (· ++ added)) := by
    rw [append, List.getElem?_map, hi]
    cases moved with
    | true => exact .inl rfl
    | false => exact .inr rfl
  have hcut (size : Nat) : (t.cut size).marks[i]? = some none := by
    rw [cut, List.getElem?_map, hi]
    rfl
  cases op with
  | readUInt w => exact .inr ((congrArg (·[i]?) (read_marks t _ _)).trans (hsame hadds))
  | readBytes len => exact .inr ((congrArg (·[i]?) (read_marks t _ _)).trans (hsame hadds))
  | readString val len => exact .inr ((congrArg (·[i]?) (read_marks t _ _)).trans (hsame hadds))
  | writeUInt w val => exact happend
  | writeBytes val => exact happend
  | writeString val => exact happend
  | reserveWriteBuffer len val => exact happend
  | resize size => exact .inl (hcut size)
  | consume size =>
    refine .inr (Eq.trans ?_ (hsame hadds))
    rw [step]
    split <;> rfl
  | getReadPosition =>
    refine .inr (Eq.trans ?_ (hsame hadds))
    exact List.getElem?_append_left (List.getElem?_eq_some_iff.1 hi).1
  | setReadPosition j =>
    refine .inr (Eq.trans ?_ (hsame hadds))
    rw [step]
    split <;> rfl
  | clear => exact .inl (hcut 0)

end Tape

namespace Session

variable {fresh : Nat → UInt8} {big : Bool} {s s' s'' : Session} {op : Op} {out : Output}
  {log rest : Bytes} {i : Nat}

theorem Simulates.of_step (h : s.Sound) (hop : s.Allows op)
    (hstep : s.step fresh big op = some (out, s')) : Simulates big s op out s' := by
  obtain ⟨out', s₁, hstep', hs⟩ := step_simulates fresh big h hop
  rw [hstep] at hstep'
  cases hstep'
  exact hs

theorem Simulates.tape_eq (h : Simulates big s op out s') : s'.tape =
    (s.tape.step big s.buffer.byteOrder (s.buffer.moves op.size) (s'.added op) op).2 :=
  (congrArg (·.2) h.tape).symm

namespace Reaches

theorem sound (h : s.Sound) (hr : Reaches fresh big s log s') : s'.Sound := by
  induction hr with
  | refl => exact h
  | step _ hop hstep ih => exact (Simulates.of_step ih hop hstep).sound

theorem byteOrder_eq (h : s.Sound) (hr : Reaches fresh big s log s') :
    s'.buffer.byteOrder = s.buffer.byteOrder := by
  induction hr with
  | refl => rfl
  | step hr hop hstep ih => exact (Simulates.of_step (hr.sound h) hop hstep).order.trans ih

theorem mark (h : s.Sound) (hr : Reaches fresh big s log s')
    (hi : s.tape.marks[i]? = some (some rest)) :
    s'.tape.marks[i]? = some none ∨ s'.tape.marks[i]? = some (some (rest ++ log)) := by
  induction hr with
  | refl =>
    rw [List.append_nil]
    exact .inr hi
  | step hr hop hstep ih =>
    have hs := Simulates.of_step (hr.sound h) hop hstep
    rw [hs.tape_eq]
    obtain hlost | hkept := ih
    · rcases Tape.step_marks hlost hs.adds with h | h
      · exact .inl h
      · exact .inl h
    · rcases Tape.step_marks hkept hs.adds with h | h
      · exact .inl h
      · refine .inr (h.trans ?_)
        rw [Option.map_some, List.append_assoc]

/-- A position that is set makes readable what was unread when it was taken, and what
was written since. -/
theorem restores {s₁ : Session} (h : s.Sound)
    (hget : s.step fresh big .getReadPosition = some (out, s₁))
    (hr : Reaches fresh big s₁ log s')
    (hset : s'.step fresh big (.setReadPosition s.marks.length) = some (.bool true, s'')) :
    s''.buffer.unread = s.buffer.unread ++ log := by
  have hs₁ := Simulates.of_step h (by exact trivial) hget
  have hs'' := Simulates.of_step (hr.sound hs₁.sound) (by exact trivial) hset
  have hmark : s₁.tape.marks[s.marks.length]? = some (some s.buffer.unread) := by
    have hlength : s.tape.marks.length = s.marks.length := List.length_map _
    rw [hs₁.tape_eq, ← hlength]
    exact List.getElem?_concat_length
  have htape := hs''.tape
  rw [Tape.step] at htape
  rcases hr.mark hs₁.sound hmark with hlost | hkept
  · rw [hlost] at htape
    exact nomatch htape
  · rw [hkept] at htape
    exact (congrArg (·.2.unread) htape).symm

end Reaches

/-- The octets of an integer in its range are read as it. -/
theorem Sound.reads_octets {w : Width} {v : Nat} (h : s.Sound) (fresh : Nat → UInt8)
    (hv : v < 256 ^ w.octets)
    (hfront : s.buffer.unread = octets big s.buffer.byteOrder w.octets v ++ rest) :
    ∃ s', s.step fresh big (.readUInt w) = some (.number (some v), s') ∧
      s'.buffer.unread = rest := by
  have hallows : s.Allows (.readUInt w) := trivial
  obtain ⟨out, s', hstep, hs⟩ := step_simulates fresh big h hallows
  have hlength := octets_length big s.buffer.byteOrder w.octets v
  have hread : L1.ByteBuffer.readBytes w.octets s.tape.unread =
      some (octets big s.buffer.byteOrder w.octets v, rest) := by
    show L1.ByteBuffer.readBytes w.octets s.buffer.unread = _
    rw [L1.ByteBuffer.readBytes, hfront, if_neg (by rw [List.length_append]; omega),
      List.take_left' hlength, List.drop_left' hlength]
  have htape := hs.tape
  rw [Tape.step, Tape.read, hread] at htape
  dsimp only at htape
  rw [Option.map_some, value_octets big _ hv] at htape
  have hout : Output.number (some v) = out := congrArg (·.1) htape
  exact ⟨s', hout ▸ hstep, (congrArg (·.2.unread) htape).symm⟩

theorem Sound.read_back {w : Width} {v : Nat} (h : s.Sound) (hv : v < 256 ^ w.octets)
    (hop : s.Allows (.writeUInt w v)) :
    ∃ s₁ s₂ s₃, s.step fresh big (.writeUInt w v) = some (.done, s₁) ∧
      s₁.step fresh big (.consume s.buffer.unread.length) = some (.bool true, s₂) ∧
      s₂.step fresh big (.readUInt w) = some (.number (some v), s₃) ∧
      s₃.buffer.unread = [] := by
  obtain ⟨out₁, s₁, hstep₁, hs₁⟩ := step_simulates fresh big h hop
  have hallows : s₁.Allows (.consume s.buffer.unread.length) := trivial
  obtain ⟨out₂, s₂, hstep₂, hs₂⟩ := step_simulates fresh big hs₁.sound hallows
  have hout₁ : Output.done = out₁ := congrArg (·.1) hs₁.tape
  have hunread₁ : s₁.buffer.unread =
      s.buffer.unread ++ octets big s.buffer.byteOrder w.octets v := by
    have := congrArg Tape.unread hs₁.tape_eq
    rw [hs₁.adds] at this
    exact this
  have hconsume : L1.ByteBuffer.consume s.buffer.unread.length s₁.tape.unread =
      some (octets big s.buffer.byteOrder w.octets v) := by
    show L1.ByteBuffer.consume _ s₁.buffer.unread = _
    rw [L1.ByteBuffer.consume, hunread₁, if_neg (by rw [List.length_append]; omega),
      List.drop_left]
  have htape₂ := hs₂.tape
  rw [Tape.step, hconsume] at htape₂
  have hout₂ : Output.bool true = out₂ := congrArg (·.1) htape₂
  have hunread₂ : octets big s.buffer.byteOrder w.octets v = s₂.buffer.unread :=
    congrArg (·.2.unread) htape₂
  have hfront : s₂.buffer.unread = octets big s₂.buffer.byteOrder w.octets v ++ [] := by
    rw [hs₂.order, hs₁.order, ← hunread₂, List.append_nil]
  obtain ⟨s₃, hstep₃, hunread₃⟩ := hs₂.sound.reads_octets fresh hv hfront
  exact ⟨s₁, s₂, s₃, hout₁ ▸ hstep₁, hout₂ ▸ hstep₂, hstep₃, hunread₃⟩

theorem sound_new {bytes : Option Bytes} {len : Nat} {order : ByteOrder} {b : ByteBuffer}
    (hb : construct fresh bytes len order = some b) : (⟨b, []⟩ : Session).Sound :=
  ⟨(construct_fits hb).1, nofun, nofun⟩

/-- The buffer is a byte queue with bookmarks over every run. -/
theorem runs_refine {bytes : Option Bytes} {len : Nat} {order : ByteOrder} {b : ByteBuffer}
    (hb : construct fresh bytes len order = some b) (hr : Reaches fresh big ⟨b, []⟩ log s) :
    (⟨b, []⟩ : Session).tape = ⟨(bytes.getD []).take len, []⟩ ∧
    s.tape.unread = s.buffer.unread ∧
    (∀ op, s.Allows op → ∃ out s', s.step fresh big op = some (out, s') ∧
      op.Adds big order (s'.added op) ∧
      s.tape.step big order (s.buffer.moves op.size) (s'.added op) op = (out, s'.tape) ∧
      (out.failed = true → s' = s)) ∧
    (∀ w v, v < 256 ^ Width.octets w → s.Allows (.writeUInt w v) →
      ∃ s₁ s₂ s₃, s.step fresh big (.writeUInt w v) = some (.done, s₁) ∧
        s₁.step fresh big (.consume s.buffer.unread.length) = some (.bool true, s₂) ∧
        s₂.step fresh big (.readUInt w) = some (.number (some v), s₃) ∧
        s₃.buffer.unread = []) ∧
    (∀ w v rest, v < 256 ^ Width.octets w →
      s.buffer.unread = octets big order w.octets v ++ rest →
      ∃ s', s.step fresh big (.readUInt w) = some (.number (some v), s') ∧
        s'.buffer.unread = rest) ∧
    (∀ out s₁ since s' s'', s.step fresh big .getReadPosition = some (out, s₁) →
      Reaches fresh big s₁ since s' →
      s'.step fresh big (.setReadPosition s.marks.length) = some (.bool true, s'') →
      s''.buffer.unread = s.buffer.unread ++ since) := by
  have hnew := sound_new hb
  have hs := hr.sound hnew
  have horder : s.buffer.byteOrder = order :=
    (hr.byteOrder_eq hnew).trans (construct_fits hb).2.2
  refine ⟨congrArg (Tape.mk · []) (construct_fits hb).2.1, rfl, fun op hop => ?_,
    fun w v hv hop => hs.read_back hv hop, fun w v rest hv hfront => ?_,
    fun out s₁ since s' s'' hget hsince hset => hsince.restores hs hget hset⟩
  · obtain ⟨out, s', hstep, hsim⟩ := step_simulates fresh big hs hop
    exact ⟨out, s', hstep, horder ▸ hsim.adds, horder ▸ hsim.tape, hsim.unchanged⟩
  · exact hs.reads_octets fresh hv (horder ▸ hfront)

/-- An array of one octet that is moved once, with a position before and one behind it. -/
theorem runs_refine_moved :
    ∃ s₁ s₂ s' s'' : Session,
      Reaches (fun _ => 0) false ⟨⟨[7], 1, 0, 1, 0, .network⟩, []⟩ [1, 2] s₁ ∧
      s₁.step (fun _ => 0) false .getReadPosition = some (.done, s₂) ∧
      Reaches (fun _ => 0) false s₂ [] s' ∧
      s'.step (fun _ => 0) false (.setReadPosition s₁.marks.length) = some (.bool true, s'') ∧
      s''.buffer.unread = s₁.buffer.unread ++ [] ∧ s''.buffer.unread = [7, 1, 2] := by
  let s₀ : Session := ⟨⟨[7], 1, 0, 1, 0, .network⟩, []⟩
  let s₁ : Session := ⟨⟨[7, 1, 2], 3, 0, 3, 1, .network⟩, []⟩
  let mark : ReadPosition := ⟨0, 1⟩
  have hroom : s₀.Allows (.writeUInt .w16 258) := fun _ => by decide
  have hstep : s₀.step (fun _ => 0) false (.writeUInt .w16 258) = some (.done, s₁) := by
    decide
  have hr₁ : Reaches (fun _ => 0) false s₀ [1, 2] s₁ := .step .refl hroom hstep
  have hconsume : (⟨s₁.buffer, [mark]⟩ : Session).step (fun _ => 0) false (.consume 2) =
      some (.bool true, ⟨{ s₁.buffer with start := 2 }, [mark]⟩) := rfl
  have hr₂ : Reaches (fun _ => 0) false ⟨s₁.buffer, [mark]⟩ []
      ⟨{ s₁.buffer with start := 2 }, [mark]⟩ := .step .refl (by exact trivial) hconsume
  refine ⟨s₁, _, _, _, hr₁, rfl, hr₂, rfl, ?_, rfl⟩
  have hb : construct (fun _ => 0) (some [7]) 1 .network = some s₀.buffer := rfl
  exact (runs_refine hb hr₁).2.2.2.2.2 _ _ _ _ _ rfl hr₂ rfl

theorem clear_version {b b' : ByteBuffer} (h : b.clear = some b') :
    b.version < 2147483647 ∧ b'.version = b.version + 1 := by
  unfold clear at h
  split at h
  · exact nomatch h
  · obtain ⟨bytes, -, h⟩ := Option.bind_eq_some_iff.1 h
    cases h
    exact ⟨by omega, rfl⟩

/-- Each `Clear` counts up the version. -/
theorem run_clears (n : Nat) (hv : s.buffer.version ≤ 2147483647)
    (hn : 2147483647 - s.buffer.version < n) :
    s.run fresh big (List.replicate n .clear) = none := by
  induction n generalizing s with
  | zero => omega
  | succ n ih =>
    rw [List.replicate_succ, run, step]
    cases hclear : s.buffer.clear with
    | none => rfl
    | some b' =>
      obtain ⟨hlt, hversion⟩ := clear_version hclear
      exact ih (s := { s with buffer := b' }) (by dsimp only; omega) (by dsimp only; omega)

/-- A reservation of 2^64 - 1 octets takes away one, and the version overflows. -/
theorem buffer_wraps :
    (∃ s₁ : Session, Session.step (fun _ => 0) false ⟨⟨[7], 1, 0, 1, 0, .network⟩, []⟩
        (.reserveWriteBuffer 18446744073709551615 []) = some (.done, s₁) ∧
      s₁.buffer.unread = []) ∧
    ∃ b, construct (fun _ => 0) none DEFAULT_SIZE .network = some b ∧
      Session.run (fun _ => 0) false ⟨b, []⟩ (List.replicate 2147483648 .clear) = none :=
  ⟨⟨_, rfl, rfl⟩, _, rfl, run_clears 2147483648 (by decide) (by decide)⟩

end Session

end RtcCore.L1.Base
