import JavaScriptCore.Assembler.LogicalImmediate
import JavaScriptCore.Assembler.ThumbImmediate
import JavaScriptCore.Bytecode.ExpressionInfo
import JavaScriptCore.Bytecompiler.ConditionsSpec
import JavaScriptCore.Bytecompiler.LeftHandSideSpec
import JavaScriptCore.Bytecompiler.StrcatSpec
import JavaScriptCore.Bytecompiler.SwitchSpec
import JavaScriptCore.DFG.ClobberSet
import JavaScriptCore.DFG.DCESpec
import JavaScriptCore.DFG.StoreBarrierElisionPhase
import JavaScriptCore.Json.JsonpSpec
import JavaScriptCore.Json.RoundTrip
import JavaScriptCore.Parser.BinaryExpressionsSpec
import JavaScriptCore.Runtime.JSArray
import JavaScriptCore.Runtime.MapIteratorSpec
import JavaScriptCore.Runtime.StringReplaceSpec
import JavaScriptCore.Runtime.TypedArraySpec
import JavaScriptCore.Runtime.URISpec
import JavaScriptCore.WTF.BitVector
import JavaScriptCore.WTF.CheckedArithmetic
import JavaScriptCore.WTF.PageAccounting
import JavaScriptCore.WTF.SizeMap
import JavaScriptCore.WTF.Text.Base64
import JavaScriptCore.WTF.Unicode.UTF8Hash
import JavaScriptCore.Yarr.CharacterClass
import JavaScriptCore.Yarr.InputPositions
import JavaScriptCore.Yarr.YarrParser
