import CrudLayers.Text.Template

namespace CrudLayers

namespace Template

def findOneBody : Template := [
  .text "const condition = \x7b relations: ", .slot "relations",
  .text ", where: ", .slot "param",
  .text " \x7d as any\nconst result = await this.", .slot "collaborator",
  .text ".findOne(condition)\nif (result) return result\nthrow new ", .slot "exception",
  .text "('", .slot "model", .text " not found')"]

def findManyBody : Template := [
  .text "const \x7b where = \x7b\x7d, first: take, skip, orderBy = 'id_ASC' \x7d = ",
  .slot "param",
  .text "\nconst separator = orderBy.lastIndexOf('_')\nconst order = separator < 0\n",
  .text "  ? \x7b [orderBy]: 'ASC' \x7d\n",
  .text "  : \x7b [orderBy.slice(0, separator)]: orderBy.slice(separator + 1) \x7d\n",
  .text "const condition = \x7b relations: ", .slot "relations",
  .text ", where, take, skip, order \x7d as any\nreturn await this.", .slot "collaborator",
  .text ".find(condition)"]

def countBody : Template := [
  .text "return await this.", .slot "collaborator",
  .text ".count(\x7b ...", .slot "param", .text ".where \x7d)"]

def aggregateBody : Template := [
  .text "return \x7b\n  count: await this.count(", .slot "param", .text "),\n\x7d"]

def createBody : Template := [
  .text "return await this.", .slot "collaborator", .text ".save(", .slot "param", .text ")"]

def updateBody : Template := [
  .text "const \x7b where = \x7b\x7d, data = \x7b\x7d \x7d = ", .slot "param",
  .text "\nconst result = await this.findOne(where)\nif (!result) throw new ",
  .slot "exception", .text "('", .slot "model",
  .text " to update not found')\n\nawait this.", .slot "collaborator",
  .text ".update(result.id, data)\n\n",
  .text "// Merged locally: storage-side defaults and triggers are not read back.\n",
  .text "return \x7b ...result, ...data \x7d"]

def upsertBody : Template := [
  .text "const \x7b where, update, create \x7d = ", .slot "param",
  .text "\ntry \x7b\n  await this.findOne(where)\n",
  .text "  return await this.update(\x7b where, data: update \x7d)\n",
  .text "\x7d catch (error) \x7b\n  return await this.create(create)\n\x7d"]

def deleteBody : Template := [
  .text "const result = await this.", .slot "collaborator",
  .text ".delete(", .slot "param",
  .text ")\nif (result.affected) return true\nthrow new ", .slot "exception",
  .text "('Failed to delete ", .slot "model", .text ", check the delete condition')"]

/-- Forwards the parameter unchanged to a method of the layer below. -/
def delegate : Template := [
  .text "return await this.", .slot "collaborator", .text ".", .slot "method",
  .text "(", .slot "param", .text ")"]

def delegateName : String :=
  "delegate"

def file : Template := [
  .slot "header", .text "\n", .slot "imports", .text "\n\n",
  .slot "decorators", .text "export class ", .slot "class_name", .text " \x7b\n",
  .slot "members", .text "\n\x7d\n"]

/-- One method; the text for `decorators` is empty or ends with a line feed. -/
def method : Template := [
  .slot "decorators", .text "  async ", .slot "name", .text "(", .slot "parameter",
  .text "): Promise<", .slot "return_type", .text "> \x7b\n", .slot "body", .text "\n  \x7d"]

def header : String :=
  "// This file is generated by crudgen. Do not edit: it is overwritten on every run."

end Template

end CrudLayers
