import TailLoop.Text.Basic

/-!
# The prelude

Every program starts with the helpers its code relies on, and ends with a call
of its entry point.
-/

namespace TailLoop.Prelude

/-- The lines of the helpers. -/
def lines : List String :=
  ["#!/usr/bin/env python3",
    "",
    "import importlib",
    "import sys",
    "",
    "",
    "class IRError(Exception):",
    "    pass",
    "",
    "",
    "def rts_error(msg):",
    "    raise IRError(msg)",
    "",
    "",
    "MODULES = dict()",
    "",
    "",
    "def rts_pymodule(name):",
    "    mod = MODULES.get(name)",
    "    if mod is None:",
    "        mod = importlib.import_module(name)",
    "        MODULES[name] = mod",
    "    return mod",
    "",
    "",
    "def rts_getfield(o, f):",
    "    try:",
    "        return getattr(o, f)",
    "    except AttributeError:",
    "        # a namespace without attribute access",
    "        return o.__dict__[f]",
    "",
    "",
    "def rts_call(f, args):",
    "    native_args = []",
    "    while len(args) == 3:  # cons: (tag, head, tail)",
    "        native_args.append(args[1])",
    "        args = args[2]",
    "    return f(*native_args)",
    "",
    "",
    "def rts_foreach(it, st, f):",
    "    for x in it:",
    "        # apply st, x, world; APPLY0 is the program's own apply function",
    "        st = APPLY0(APPLY0(APPLY0(f, st), x), None)",
    "    return st",
    "",
    "",
    "def rts_is_none(x):",
    "    return 1 if x is None else 0",
    ""]

def text : Text :=
  lines.flatMap fun line => Text.ofString line ++ "\n"

/-- Calls the entry point, but only where the code runs as a program. -/
def launcher (entry : Text) : Text :=
  "if __name__ == '__main__':\n    " ++ entry ++ "()\n"

end TailLoop.Prelude
