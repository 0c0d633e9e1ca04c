import LuaLink.Text

/-! The texts that say how the program and its commands are called. -/

namespace LuaLink.Usage

def lines (texts : List String) : Text := texts.flatMap fun text => Text.ofString text ++ "\n"

/-- The call of the program. -/
def programUsage : Text := lines
  ["usage: luapack [-h] [--verbose] \x7bbundle,discover,pick\x7d ..."]

/-- The help of the program, after the call. -/
def programHelp : Text := lines
  ["",
   "luapack: bundle Lua files into a single script",
   "",
   "positional arguments:",
   "  \x7bbundle,discover,pick\x7d",
   "    bundle              Bundle a Lua entry file and its requires",
   "    discover            List candidate Lua entry files",
   "    pick                Choose an entry file interactively, then bundle it",
   "",
   "options:",
   "  -h, --help            show this help message and exit",
   "  --verbose             Enable verbose output (sent to stderr)"]

/-- The call of `bundle`. -/
def bundleUsage : Text := lines
  ["usage: luapack bundle [-h] --entrypoint ENTRYPOINT [--output-path OUTPUT_PATH]",
   "                      [--search-root DIR] [--extension EXTENSION]",
   "                      [--max-modules MAX_MODULES] [--external NAME] [-d]"]

/-- The help of `bundle`, after the call. -/
def bundleHelp : Text := lines
  ["",
   "options:",
   "  -h, --help            show this help message and exit",
   "  --entrypoint ENTRYPOINT",
   "                        Path to the main Lua file",
   "  --output-path OUTPUT_PATH, --outputPath OUTPUT_PATH",
   "                        Where to write the bundle (default:",
   "                        <entrypoint>.bundled.lua)",
   "  --search-root DIR     Module search root, in priority order (repeatable)",
   "  --extension EXTENSION",
   "                        Module file extension (default: .lua)",
   "  --max-modules MAX_MODULES",
   "                        Fail if more modules than this are reached",
   "  --external NAME       Module provided by the runtime; left to the native",
   "                        require (repeatable)",
   "  -d, --debug           Enable debug logging for detailed output"]

/-- The call of `discover`. -/
def discoverUsage : Text := lines
  ["usage: luapack discover [-h] [--max-depth MAX_DEPTH] [directory]"]

/-- The help of `discover`, after the call. -/
def discoverHelp : Text := lines
  ["",
   "positional arguments:",
   "  directory             Directory to search (default: .)",
   "",
   "options:",
   "  -h, --help            show this help message and exit",
   "  --max-depth MAX_DEPTH",
   "                        Directory depth limit (default: 5)"]

/-- The call of `pick`. -/
def pickUsage : Text := lines
  ["usage: luapack pick [-h] [--max-depth MAX_DEPTH] [--output-path OUTPUT_PATH]",
   "                    [--search-root DIR] [--extension EXTENSION]",
   "                    [--max-modules MAX_MODULES] [--external NAME] [-d]",
   "                    [directory]"]

/-- The help of `pick`, after the call. -/
def pickHelp : Text := lines
  ["",
   "positional arguments:",
   "  directory             Directory to search (default: .)",
   "",
   "options:",
   "  -h, --help            show this help message and exit",
   "  --max-depth MAX_DEPTH",
   "                        Directory depth limit (default: 5)",
   "  --output-path OUTPUT_PATH, --outputPath OUTPUT_PATH",
   "                        Where to write the bundle (default:",
   "                        <entrypoint>.bundled.lua)",
   "  --search-root DIR     Module search root, in priority order (repeatable)",
   "  --extension EXTENSION",
   "                        Module file extension (default: .lua)",
   "  --max-modules MAX_MODULES",
   "                        Fail if more modules than this are reached",
   "  --external NAME       Module provided by the runtime; left to the native",
   "                        require (repeatable)",
   "  -d, --debug           Enable debug logging for detailed output"]

end LuaLink.Usage
