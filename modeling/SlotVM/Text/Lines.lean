/-
Splitting text into lines. A line ends at a line feed, and one carriage return right before that
line feed belongs to the line end; text after the last line feed is a line of its own.
-/

namespace SlotVM.Text

/-- The lines of a text, without their ends. -/
def lines : List Char → List (List Char)
  | [] => []
  | '\n' :: rest => [] :: lines rest
  | '\r' :: '\n' :: rest => [] :: lines rest
  | c :: rest =>
    match lines rest with
    | [] => [[c]]
    | line :: more => (c :: line) :: more

end SlotVM.Text
