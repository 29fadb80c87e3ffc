import PipelineGraph.Text.DecimalDigit

/-!
# Digits of all kinds

Besides the decimal digits, Unicode 14 has digits that do not count in places of ten: raised,
lowered, circled and bracketed ones, and those of a few scripts. They are digits too, but have no
value as part of a numeral.
-/

namespace PipelineGraph.Text

/-- The digits of all kinds: the decimal ones, run by run, and the others. -/
def digits : CodeRanges :=
  digitZeros.map (fun start => (start, start + 9)) ++
    [(0xB2, 0xB3), (0xB9, 0xB9), (0x1369, 0x1371), (0x19DA, 0x19DA), (0x2070, 0x2070),
     (0x2074, 0x2079), (0x2080, 0x2089), (0x2460, 0x2468), (0x2474, 0x247C), (0x2488, 0x2490),
     (0x24EA, 0x24EA), (0x24F5, 0x24FD), (0x24FF, 0x24FF), (0x2776, 0x277E), (0x2780, 0x2788),
     (0x278A, 0x2792), (0x10A40, 0x10A43), (0x10E60, 0x10E68), (0x11052, 0x1105A),
     (0x1F100, 0x1F10A)]

/-- Whether a text begins with a digit. -/
def opensWithDigit : Text → Bool
  | [] => false
  | c :: _ => digits.has c

end PipelineGraph.Text
