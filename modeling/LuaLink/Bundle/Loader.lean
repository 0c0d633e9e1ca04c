import LuaLink.Text

/-! The Lua code at the head of every bundle.  It keeps a registry of modules and has a `require` of its
own, so that a bundle needs no files: `__luapack_define` registers a module under its names, and
`__luapack_enter` registers the entry as being loaded. -/

namespace LuaLink

def loaderLines : List String :=
  ["-- ==========================================",
    "-- LUAPACK RUNTIME",
    "-- ==========================================",
    "local __luapack_native_require = require",
    "local __luapack_modules = \x7b\x7d",
    "",
    "local function __luapack_define(names, factory)",
    "  local record = \x7b state = \"UNLOADED\", factory = factory \x7d",
    "  for _, name in ipairs(names) do",
    "    __luapack_modules[name] = record",
    "  end",
    "end",
    "",
    "-- Marks the entry file as loading so a cyclic require of it gets the placeholder.",
    "local function __luapack_enter(names)",
    "  local record = \x7b state = \"LOADING\", result = \x7b\x7d \x7d",
    "  for _, name in ipairs(names) do",
    "    __luapack_modules[name] = record",
    "  end",
    "end",
    "",
    "local function require(name)",
    "  local record = __luapack_modules[name]",
    "  if record == nil then",
    "    if __luapack_native_require ~= nil then",
    "      return __luapack_native_require(name)",
    "    end",
    "    error(\"module '\" .. tostring(name) .. \"' is not part of this bundle\", 2)",
    "  end",
    "  if record.state ~= \"UNLOADED\" then",
    "    -- LOADED: cached value. LOADING: a cycle, hand back the placeholder.",
    "    return record.result",
    "  end",
    "",
    "  record.state = \"LOADING\"",
    "  record.result = \x7b\x7d",
    "  local ok, value = pcall(record.factory, name)",
    "  if not ok then",
    "    record.state = \"UNLOADED\"",
    "    record.result = nil",
    "    error(value, 0)",
    "  end",
    "",
    "  local loaded = type(package) == \"table\" and type(package.loaded) == \"table\"",
    "  if value == nil and loaded then",
    "    value = package.loaded[name]",
    "  end",
    "  if value == nil then",
    "    value = true",
    "  end",
    "  record.result = value",
    "  record.state = \"LOADED\"",
    "  if loaded then",
    "    package.loaded[name] = value",
    "  end",
    "  return value",
    "end"]

/-- The code, without a line end after its last line. -/
def loader : Text := Text.join "\n" (loaderLines.map Text.ofString)

end LuaLink
