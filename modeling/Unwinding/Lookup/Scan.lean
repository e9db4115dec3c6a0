import Unwinding.CallFrame.Entry

/-!
# Scanning the frame section

Without a table the entries are looked at one by one. Each entry says where
the next one starts, which is always further on, so the bytes of the section
bound the number of entries.
-/

namespace Unwinding.FrameSection

/-- Looks at no more than `left` entries from `address` on. -/
def scanWithin (space : AddressSpace) (bases : Bases) (pc stop : Word) :
    (left : Nat) → (address : Word) → Except CfiError (Option FrameEntry)
  | 0, _ => .ok none
  | left + 1, address =>
    if stop ≤ address then .ok none
    else
      match EntryHead.read space address with
      | .error (.terminator _) => .ok none
      | .error error => .error error
      | .ok head => do
        if head.id ≠ 0 then
          let (entry, _) ← FrameEntry.decode space bases address
          if entry.covers pc then return some entry
        scanWithin space bases pc stop left head.stop

/-- The first frame entry covering `pc` in the section at `start`, which ends
after `length` bytes or, if that is not known, with its terminator. -/
def scan (space : AddressSpace) (bases : Bases) (start : Word) (length : Option Word)
    (pc : Word) : Except CfiError (Option FrameEntry) :=
  let stop :=
    match length with
    | some length => start + length
    | none => (Span.unbounded start).limit
  scanWithin space bases pc stop (stop.toNat - start.toNat) start

end Unwinding.FrameSection
