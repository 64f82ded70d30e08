import CompletionPrompt.Driver.Request

/-!
# The driver program

The driver is a Python program that carries a request as a string literal, executes the statement,
and prints the resulting namespace as one line: a marker and then the namespace as JSON. The
literal is the request's JSON text written as a JSON string, which Python reads alike.
-/

namespace CompletionPrompt
namespace Driver

/-- What stands before the namespace on the line that the driver prints. -/
def marker : String :=
  "__IMPORT_NAMESPACE__ "

/-- The rows of the program before the one that carries the request. -/
def rowsBefore : List String :=
  ["import json",
   "import sys",
   "import types",
   ""]

/-- The row that carries the request, up to the literal. -/
def requestStart : String :=
  "REQUEST = json.loads("

/-- The rows of the program after the literal; the first ends the row that carries it. -/
def rowsAfter : List String :=
  [")",
   "MARKER = \"" ++ marker ++ "\"",
   "",
   "",
   "def probe(value, depth, active):",
   "    if isinstance(value, type):",
   "        methods = []",
   "        for name in dir(value):",
   "            try:",
   "                member = getattr(value, name)",
   "            except Exception:",
   "                continue",
   "            if callable(member):",
   "                methods.append(name)",
   "        return \x7b\"kind\": \"class\", \"methods\": methods\x7d",
   "    code = getattr(value, \"__code__\", None)",
   "    if callable(value) and isinstance(code, types.CodeType):",
   "        return \x7b\"kind\": \"function\", \"params\": list(code.co_varnames[: code.co_argcount])\x7d",
   "    if isinstance(value, types.ModuleType):",
   "        members = []",
   "        if depth > 0 and id(value) not in active:",
   "            active.add(id(value))",
   "            for name, member in list(vars(value).items()):",
   "                members.append([name, probe(member, depth - 1, active)])",
   "            active.discard(id(value))",
   "        return \x7b\"kind\": \"namespace\", \"members\": members\x7d",
   "    return \x7b\"kind\": \"object\", \"type_name\": type(value).__name__\x7d",
   "",
   "",
   "def main():",
   "    seed = \x7b\"__builtins__\": __builtins__\x7d",
   "    seed.update(REQUEST[\"environment\"])",
   "    for directory in REQUEST[\"search_dirs\"]:",
   "        namespace = dict(seed)",
   "        sys.path.insert(0, directory)",
   "        try:",
   "            exec(REQUEST[\"statement\"], namespace)",
   "        except ModuleNotFoundError:",
   "            continue",
   "        finally:",
   "            sys.path.remove(directory)",
   "        snapshot = []",
   "        for name, value in namespace.items():",
   "            if name in seed:",
   "                snapshot.append([name, \x7b\"kind\": \"object\", \"type_name\": type(value).__name__\x7d])",
   "            else:",
   "                snapshot.append([name, probe(value, REQUEST[\"depth\"], set())])",
   "        sys.stdout.write(MARKER + json.dumps(snapshot) + \"\\n\")",
   "        return",
   "    raise FileNotFoundError(\"" ++ unlocatableSignature ++ " \" + REQUEST[\"filename\"])",
   "",
   "",
   "main()",
   ""]

/-- The program before the literal. -/
def textBefore : String :=
  "\n".intercalate (rowsBefore ++ [requestStart])

/-- The program after the literal. -/
def textAfter : String :=
  "\n".intercalate rowsAfter

/-- The string literal that carries a request. -/
def requestLiteral (r : Request) : List Char :=
  Json.literal r.toJson.compact

/-- The driver program of a request. -/
def program (r : Request) : String :=
  textBefore ++ String.ofList (requestLiteral r) ++ textAfter

end Driver
end CompletionPrompt
